import DelayedQueue.Proofs.Handler.Recorder
import DelayedQueue.Proofs.Queue.Books
import DelayedQueue.Proofs.Queue.Gear
import DelayedQueue.Proofs.Queue.Shutdown

/-! # The course of a delivery

A worker that is given a message begins with what the handler of the session makes of it, and from
then on does one step of that at a time: what it tells is what its activity says, and the
delivery ends where the activity does, unless it is waiting when its deadline comes.
-/

namespace DelayedQueue

/-- The message of which something is told, and what is told. -/
def Entry.report? : Entry → Option (String × Report)
  | .report id r => some (id, r)
  | _ => none

namespace Queue

/-- What has been entered in the journal between two states, in this order. -/
def newEntries (q q' : Queue) : List Entry :=
  ((q'.journal.take (q'.journal.length - q.journal.length)).map Prod.snd).reverse

/-- What handlers and middleware have told, the latest first. -/
def reports (q : Queue) : List (String × Report) := q.journal.filterMap fun e => e.2.report?

variable {q q' q'' : Queue} {s : Session} {w : Worker} {i : Nat} {m : Message} {d : Delivery}
  {t : Time} {o : Outcome} {es : List Entry}

section News

theorem newEntries_of_append {l : List (Instant × Entry)} (h : q'.journal = l ++ q.journal) :
    newEntries q q' = (l.map Prod.snd).reverse := by
  rw [newEntries, h, List.length_append, Nat.add_sub_cancel, List.take_left']
  rfl

theorem newEntries_of_journal_eq (h : q'.journal = q.journal) : newEntries q q' = [] :=
  newEntries_of_append (l := []) h

theorem newEntries_trans (h : q.journal <:+ q'.journal) (h' : q'.journal <:+ q''.journal) :
    newEntries q q'' = newEntries q q' ++ newEntries q' q'' := by
  obtain ⟨l, hl⟩ := h
  obtain ⟨l', hl'⟩ := h'
  have hall : q''.journal = (l' ++ l) ++ q.journal := by rw [← hl', ← hl, List.append_assoc]
  rw [newEntries_of_append hall, newEntries_of_append hl.symm, newEntries_of_append hl'.symm,
    List.map_append, List.reverse_append]

theorem filter_newEntries {f : Entry → Bool} (h : q.journal <:+ q'.journal)
    (hes : q'.journal.filter (fun e => f e.2) =
      es.map (Prod.mk q.now) ++ q.journal.filter fun e => f e.2) :
    (newEntries q q').filter f = es.reverse := by
  obtain ⟨l, hl⟩ := h
  have hl' : l.filter (fun e => f e.2) = es.map (Prod.mk q.now) := by
    rw [← hl, List.filter_append] at hes
    exact List.append_cancel_right hes
  have hfilter : (l.map Prod.snd).filter f = es := by
    rw [List.filter_map]
    refine (congrArg (List.map Prod.snd) hl').trans ?_
    rw [List.map_map]
    exact List.map_id' es
  rw [newEntries_of_append hl.symm, List.filter_reverse, hfilter]

/-- The deeds among the new entries are those that the outline has more. -/
theorem mem_newEntries_iff (h : q.journal <:+ q'.journal)
    (hd : q'.outline.deeds = es.map (Prod.mk q.now) ++ q.outline.deeds) {e : Entry}
    (he : e.isDeed = true) : e ∈ newEntries q q' ↔ e ∈ es := by
  have hes : (newEntries q q').filter Entry.isDeed = es.reverse := filter_newEntries h hd
  calc e ∈ newEntries q q'
      ↔ e ∈ (newEntries q q').filter Entry.isDeed := (List.mem_filter.trans (and_iff_left he)).symm
    _ ↔ e ∈ es := by rw [hes, List.mem_reverse]

theorem not_mem_newEntries (h : q.journal <:+ q'.journal)
    (hd : q'.outline.deeds = q.outline.deeds) {e : Entry} (he : e.isDeed = true) :
    e ∉ newEntries q q' := by
  have hd' : q'.outline.deeds = [].map (Prod.mk q.now) ++ q.outline.deeds := hd
  rw [mem_newEntries_iff h hd' he]
  exact List.not_mem_nil

theorem journal_suffix_meet (e : Event) : q.journal <:+ (q.meet e).journal :=
  Books.suffix_of_steps (meet_follows e).steps

end News

section Begin

end Begin

section Reports

end Reports

section Events

/-- Whether it is worker `i` that takes a step. -/
def Event.isTurn (i : Nat) : Event → Bool
  | .move (.step (.worker j)) => i == j
  | _ => false

/-- What is told in a step of worker `i`. -/
def tells (q : Queue) (i : Nat) (e : Event) : List (String × Report) :=
  if e.isTurn i then (newEntries q (q.meet e)).filterMap Entry.report? else []

theorem eq_of_isTurn {e : Event} (h : e.isTurn i = true) : e = .move (.step (.worker i)) := by
  unfold Event.isTurn at h
  split at h
  · rw [eq_of_beq h]
  · cases h

theorem exists_worker {p : Worker.Phase} (h : q.phase? i = some p) :
    ∃ s w, q.session = some s ∧ q.worker? i = some w ∧ w.phase = p := by
  obtain ⟨w, hw, hp⟩ := Option.map_eq_some_iff.mp h
  cases hs : q.session with
  | none => simp [worker?, hs] at hw
  | some s => exact ⟨s, w, rfl, hw, hp⟩

theorem meet_deeds (hf : q.lifecycle.Fits q.outline.crew) (e : Event) :
    (q.meet e).outline.deeds = q.outline.deeds ∨
      ∃ i c p p' es, e = .move (.step (.worker i)) ∧ q.phase? i = some p ∧
        q.outline.Turn i c p p' es ∧ (q.meet e).phase? i = some p' ∧
        (q.meet e).outline.deeds = es.map (Prod.mk q.now) ++ q.outline.deeds := by
  cases e with
  | outside k op => exact .inl rfl
  | move m =>
    obtain ⟨o', ho, hstep⟩ : ∃ o', (q.move m).outline = o' ∧ q.outline.Step m o' :=
      ⟨_, rfl, move_step hf m⟩
    simp only [meet, ← outline_phase?, ho]
    cases hstep with
    | @worker c i p p' es hc hi ht =>
      refine .inr ⟨i, _, p, p', es, rfl, ?_, ht, ?_, rfl⟩
      · rw [Outline.phase?, hc]
        exact hi
      · rw [Outline.phase?_put hc hi, if_pos rfl]
    | _ => exact .inl rfl

theorem phase?_of_put {p p' : Worker.Phase} (h : q.phase? i = some p)
    (ho : q'.outline = q.outline.put i p' es) : q'.phase? i = some p' := by
  rw [← outline_phase?] at h ⊢
  rw [ho]
  cases hc : q.outline.crew with
  | none => simp [Outline.phase?, hc] at h
  | some c =>
    have hi : c.workers[i]? = some p := by simpa [Outline.phase?, hc] using h
    rw [Outline.phase?_put hc hi, if_pos rfl]

/-- From one state to the other the handler of worker `i`, which is at `d` in the first, goes on and
does not end; `told` is what it tells meanwhile. -/
def GoesOn (i : Nat) (d : Delivery) (q q' : Queue) (told : List (String × Report)) : Prop :=
  ∃ d' rs, q'.phase? i = some (.handling d') ∧ d'.message = d.message ∧
    d'.deadline = d.deadline ∧ told = rs.map (Prod.mk d.message.id) ∧
    (∀ rs' e, d'.activity.Plays rs' e → d.activity.Plays (rs ++ rs') e) ∧
    ∀ m o, .ended i m o ∉ newEntries q q'

theorem GoesOn.trans {told told' : List (String × Report)} (h : GoesOn i d q q' told)
    (hs : q.journal <:+ q'.journal) (hs' : q'.journal <:+ q''.journal)
    (h' : ∀ d', q'.phase? i = some (.handling d') → GoesOn i d' q' q'' told') :
    GoesOn i d q q'' (told ++ told') := by
  obtain ⟨d', rs, hd', hm, hdue, rfl, hplays, hn⟩ := h
  obtain ⟨d'', rs', hd'', hm', hdue', rfl, hplays', hn'⟩ := h' d' hd'
  refine ⟨d'', rs ++ rs', hd'', hm'.trans hm, hdue'.trans hdue, ?_, fun rs'' e h => ?_,
    fun m o he => ?_⟩
  · rw [List.map_append, hm]
  · rw [List.append_assoc]
    exact hplays _ e (hplays' _ e h)
  · rw [newEntries_trans hs hs'] at he
    exact (List.mem_append.mp he).elim (hn m o) (hn' m o)

theorem phase?_meet {p : Worker.Phase} (hf : q.lifecycle.Fits q.outline.crew) {e : Event}
    (hp : q.phase? i = some p) (ht : e.isTurn i = false) : (q.meet e).phase? i = some p := by
  cases e with
  | outside k op => exact hp
  | move m =>
    have hm : m ≠ .step (.worker i) := by
      rintro rfl
      simp [Event.isTurn] at ht
    rw [← outline_phase?] at hp ⊢
    exact (move_step hf m).phase?_eq hf hm hp

end Events

end Queue

end DelayedQueue
