import DelayedQueue.Proofs.Queue.Poll
import DelayedQueue.Proofs.Queue.Promotion
import DelayedQueue.Proofs.Queue.Removal
import DelayedQueue.Proofs.Store.Corrupt

/-! # A row that no handler is given

A worker commits only what it has been handed, and it is handed only what it can read. So while no
other row holds a message of its id, a row that cannot be read outlasts whatever workers, callers
and the daemon do: a worker that pops it goes back to wait for its next tick.
-/

namespace DelayedQueue

/-- The message that a worker in this phase has been handed. -/
def Worker.Phase.held? : Worker.Phase → Option Message
  | .handling d => some d.message
  | .settling m _ _ => some m
  | _ => none

namespace Outline

variable {o o' : Outline} {i j : Nat} {cancelled : Bool} {p p' : Worker.Phase} {es : List Entry}
  {m : Message} {x : String} {mv : Queue.Move}

/-- What a worker has in its hands it has had before, or has just been handed. -/
theorem Turn.held? (h : o.Turn i cancelled p p' es) (hm : p'.held? = some m) :
    p.held? = some m ∨ .invoked i m ∈ es := by
  cases h with
  | poll _ _ h =>
    cases h with
    | invoked =>
      cases hm
      exact .inr List.mem_cons_self
    | _ => cases hm
  | goOn | ended => exact .inl hm
  | _ => cases hm

theorem Turn.of_committed (h : o.Turn i cancelled p p' es) (he : .committed j x ∈ es) :
    ∃ m, p.held? = some m ∧ m.id = x := by
  cases h with
  | poll _ _ h => cases h <;> simp at he
  | @commit m =>
    obtain ⟨-, rfl⟩ := Entry.committed.inj (List.mem_singleton.mp he)
    exact ⟨m, rfl, rfl⟩
  | _ => simp at he

theorem Step.phase?_cases (h : o.Step mv o') (hp : o'.phase? i = some p') :
    o.phase? i = some p' ∨ p' = .fresh ∨ ∃ c p es, o.phase? i = some p ∧ o.Turn i c p p' es ∧
      o'.deeds = es.map (Prod.mk o.now) ++ o.deeds := by
  cases h with
  | stay | elapse | close | closed | late => exact .inl hp
  | consume base hasExecutor workers =>
    have hmem : p' ∈ List.replicate workers Worker.Phase.fresh := List.mem_of_getElem? hp
    exact .inr (.inl (List.eq_of_mem_replicate hmem))
  | shutDown => exact .inl ((phase?_cancel i).symm.trans hp)
  | publish hc | daemon hc => exact .inl ((phase?_setCrew hc rfl i).symm.trans hp)
  | @worker c j p p'' es hc hj ht =>
    rw [phase?_put hc hj i] at hp
    split at hp
    · next hij =>
      subst hij
      cases hp
      refine .inr (.inr ⟨_, p, es, ?_, ht, rfl⟩)
      rw [phase?, hc]
      exact hj
    · exact .inl hp

end Outline

namespace Books

variable {c : Config} {ids : MessageId.Source} {direct : StoreOp → Prop} {b b' : Books}
  {x : String} {row : Bytes}

/-- The row of `x` cannot be read, and no message `x` is stored or will be produced. -/
structure Corrupt (ids : MessageId.Source) (x : String) (row : Bytes) (b : Books) : Prop where
  proper : b.Proper x
  past : b.Past ids x
  corrupt : b.space.Corrupt x row

theorem Corrupt.unread (hb : b.Corrupt ids x row) (row' : Bytes) (m : Message)
    (h : b.space.row? x = some row') : Row.decode row' ≠ .ok m := by
  obtain ⟨f, hf⟩ := hb.corrupt.unread
  obtain rfl : row = row' := Option.some.inj (hb.corrupt.stored.symm.trans h)
  rw [hf]
  nofun

theorem Corrupt.step (hb : b.Corrupt ids x row) (h : Step c ids direct b b')
    (hd : ∀ op, direct op → op.Spares x ∧ op.Proper x)
    (hc : ∀ t i, b'.journal ≠ (t, .committed i x) :: b.journal) : b'.Corrupt ids x row := by
  have hi := hb.proper.indexed
  have hs := hb.corrupt
  refine ⟨hb.proper.step h fun op ho => (hd op ho).2, hb.past.step h, ?_⟩
  cases h with
  | noted => exact hs
  | @produced m now hm =>
    have hne : m.id ≠ x := hm ▸ hb.past _ (Nat.le_refl _)
    exact hs.apply hi (show StoreOp.Spares x (.produce m now) from hne)
  | @timed op ho =>
    refine hs.apply hi ?_
    cases op with
    | reschedule | promote => trivial
    | _ => cases ho
  | direct ho => exact hs.apply hi (hd _ ho).1
  | @took now | @handed now =>
    have hspares : (StoreOp.take c.retryInterval c.maxDeliveries now).Spares x := trivial
    exact hs.apply hi hspares
  | committed t i y =>
    have hne : y ≠ x := by
      rintro rfl
      exact hc t i rfl
    exact hs.apply hi (show StoreOp.Spares x (.commit y) from hne)

/-- If `x` is not committed meanwhile its row stays, and no handler begins with it. -/
theorem Corrupt.steps {l : List (Instant × Entry)} (hb : b.Corrupt ids x row)
    (h : Relation.ReflTransGen (Step c ids direct) b b')
    (hd : ∀ op, direct op → op.Spares x ∧ op.Proper x) (hl : b'.journal = l ++ b.journal)
    (hc : ∀ e ∈ l, e.2.commits x = false) :
    b'.Corrupt ids x row ∧ ∀ e ∈ l, e.2.invokes x = false := by
  induction h generalizing l with
  | refl =>
    obtain rfl : l = [] := List.self_eq_append_left.mp hl
    exact ⟨hb, by simp⟩
  | @tail b₁ b₂ hbs hs ih =>
    obtain ⟨l₁, hl₁⟩ := suffix_of_steps hbs
    obtain ⟨l₂, hl₂⟩ := hs.suffix
    obtain rfl : l = l₂ ++ l₁ := by
      rw [← hl₂, ← hl₁, ← List.append_assoc] at hl
      exact (List.append_cancel_right hl).symm
    obtain ⟨hb₁, hn₁⟩ := ih hl₁.symm fun e he => hc e (List.mem_append_right _ he)
    obtain ⟨l₃, hl₃, hn₃⟩ := hs.not_invoked hb₁.proper hb₁.unread
    obtain rfl : l₂ = l₃ := List.append_cancel_right (hl₂.trans hl₃)
    refine ⟨hb₁.step hs hd fun t i he => ?_, fun e he => ?_⟩
    · have hone : l₂ ++ b₁.journal = [(t, .committed i x)] ++ b₁.journal := hl₂.trans he
      obtain rfl := List.append_cancel_right hone
      have hx := hc (t, .committed i x) (List.mem_append_left _ List.mem_cons_self)
      simp [Entry.commits] at hx
    · exact (List.mem_append.mp he).elim (hn₃ e) (hn₁ e)

end Books

namespace Queue

variable {q q' : Queue} {s : Session} {i : Nat} {p : Worker.Phase} {x : String} {row : Bytes}
  {e : Event} {ds : List Duration} {now : Time}

/-- No worker has a message `x` in its hands. -/
def Frees (q : Queue) (x : String) : Prop :=
  ∀ i p m, q.phase? i = some p → p.held? = some m → m.id ≠ x

/-- The row of `x` cannot be read, and there is no message `x`. -/
structure Keeps (q : Queue) (x : String) (row : Bytes) : Prop where
  books : q.books.Corrupt q.ids x row
  free : q.Frees x

theorem newEntries_committed (hf : q.lifecycle.Fits q.outline.crew) (h : q.Frees x) (i : Nat) :
    .committed i x ∉ newEntries q (q.meet e) := by
  intro he
  have hsuffix := journal_suffix_meet (q := q) e
  rcases meet_deeds hf e with hd | ⟨j, c, p, p', es, -, hp, ht, -, hd⟩
  · exact not_mem_newEntries hsuffix hd rfl he
  · obtain ⟨m, hm, hx⟩ := ht.of_committed ((mem_newEntries_iff hsuffix hd rfl).mp he)
    exact h j p m hp hm hx

theorem commits_eq_false_of {e' : Entry} (h : ∀ i, e' ≠ .committed i x) : e'.commits x = false := by
  cases e' with
  | committed i y =>
    refine beq_eq_false_iff_ne.mpr ?_
    rintro rfl
    exact h i rfl
  | _ => rfl

theorem meet_frees (hf : q.lifecycle.Fits q.outline.crew) (h : q.Frees x)
    (hn : ∀ e' ∈ newEntries q (q.meet e), e'.invokes x = false) : (q.meet e).Frees x := by
  cases e with
  | outside k op => exact h
  | move mv =>
    intro i p' m hp hm
    have hsuffix := journal_suffix_meet (q := q) (.move mv)
    rw [← outline_phase?] at hp
    rcases (move_step hf mv).phase?_cases hp with hp | rfl | ⟨c, p, es, hp, ht, hd⟩
    · rw [outline_phase?] at hp
      exact h i p' m hp hm
    · cases hm
    · rw [outline_phase?] at hp
      rcases ht.held? hm with hm | hm
      · exact h i p m hp hm
      · have hinvokes := hn _ ((mem_newEntries_iff hsuffix hd rfl).mpr hm)
        simpa [Entry.invokes] using hinvokes

theorem meet_keeps (hf : q.lifecycle.Fits q.outline.crew) (h : q.Keeps x row)
    (hd : ∀ op ∈ q.direct? e, op.Spares x ∧ op.Proper x) : (q.meet e).Keeps x row ∧
      ∀ e' ∈ newEntries q (q.meet e), e'.invokes x = false ∧ e'.commits x = false := by
  -- a commit comes from what a worker holds already, so it is ruled out before the row is followed
  have hcommits : ∀ e' ∈ newEntries q (q.meet e), e'.commits x = false := by
    refine fun e' he => commits_eq_false_of fun i hi => ?_
    exact newEntries_committed hf h.free i (hi ▸ he)
  have hfollows := meet_follows (q := q) e
  obtain ⟨l, hl⟩ := journal_suffix_meet (q := q) e
  have hnew : newEntries q (q.meet e) = (l.map Prod.snd).reverse := newEntries_of_append hl.symm
  have hmem (e' : Instant × Entry) (he : e' ∈ l) : e'.2 ∈ newEntries q (q.meet e) := by
    rw [hnew, List.mem_reverse]
    exact List.mem_map_of_mem he
  obtain ⟨hbooks, hinvokes⟩ :=
    h.books.steps hfollows.steps hd hl.symm fun e' he => hcommits _ (hmem e' he)
  have hinvokes' : ∀ e' ∈ newEntries q (q.meet e), e'.invokes x = false := by
    intro e' he
    rw [hnew, List.mem_reverse] at he
    obtain ⟨e'', he'', rfl⟩ := List.mem_map.mp he
    exact hinvokes e'' he''
  refine ⟨⟨?_, meet_frees hf h.free hinvokes'⟩, fun e' he => ⟨hinvokes' e' he, hcommits e' he⟩⟩
  rw [hfollows.ids]
  exact hbooks

theorem live_keeps {es : List Event} (ho : q.outline.Orderly ds) (h : q.Keeps x row)
    (hd : ∀ op ∈ q.directs es, op.Spares x ∧ op.Proper x) : (q.live es).Keeps x row ∧
      ∀ e ∈ newEntries q (q.live es), e.invokes x = false ∧ e.commits x = false := by
  induction es generalizing q ds with
  | nil =>
    refine ⟨h, ?_⟩
    rw [show newEntries q (q.live []) = [] from newEntries_of_journal_eq rfl]
    simp
  | cons e es ih =>
    simp only [directs, List.mem_append, Option.mem_toList] at hd
    obtain ⟨ds', ho'⟩ := orderly_meet ho e
    obtain ⟨hmeet, hnew⟩ := meet_keeps ho.fits h fun op hop => hd op (.inl hop)
    obtain ⟨hlive, hlater⟩ := ih ho' hmeet fun op hop => hd op (.inr hop)
    refine ⟨hlive, fun e' he => ?_⟩
    have htrans : newEntries q (q.live (e :: es)) =
        newEntries q (q.meet e) ++ newEntries (q.meet e) ((q.meet e).live es) :=
      newEntries_trans (journal_suffix_meet e) (journal_suffix_live es)
    rw [htrans] at he
    exact (List.mem_append.mp he).elim (hnew e') (hlater e')

section Poll

theorem takeAt_corrupt (h : q.space.Corrupt x row) (hh : q.space.ready.head? = some x)
    (hp : q.phase? i = some p) : (q.takeAt s i now).record = (q.now, .attempted i) :: q.record ∧
      ∃ p', (q.takeAt s i now).phase? i = some p' ∧ (p' = .looping false ∨ p' = .broken) := by
  obtain ⟨f, hf⟩ := h.unread
  have hp₁ : ((q.note (.attempted i)).strike .take).2.phase? i = some p := hp
  have hp₂ : (((q.note (.attempted i)).strike .take).2.strike .takePanic).2.phase? i = some p := hp
  unfold takeAt
  simp only
  split
  · exact ⟨rfl, _, setPhase_phase? (p := p) hp₁ _, .inl rfl⟩
  · split
    · exact ⟨rfl, _, setPhase_phase? hp₂ _, .inr rfl⟩
    · have htaken : (q.store.takeOne q.keys q.config.retryInterval q.config.maxDeliveries now).1 =
          .taken row :=
        (Store.takeOne_fst ..).trans (h.pop (Space.pop_of_head _ _ now hh)).1
      obtain ⟨-, hidle, -⟩ := takeFromStore_polls (s := s) hp₂ now
      have hmessage : (Take.taken row).message? = none := by
        simp only [Take.message?, hf]
        rfl
      obtain ⟨hrecord, hphase⟩ := hidle (htaken ▸ hmessage)
      refine ⟨hrecord, _, hphase, .inl ?_⟩
      exact congrArg Worker.Phase.looping (congrArg Take.isExhausted htaken)

theorem meet_corrupt (hf : q.lifecycle.Fits q.outline.crew) (h : q.space.Corrupt x row)
    (hh : q.space.ready.head? = some x) (he : .attempted i ∈ newEntries q (q.meet e)) :
    q.does i e = [.attempted i] ∧
      ∃ p, (q.meet e).phase? i = some p ∧ (p = .looping false ∨ p = .broken) := by
  obtain ⟨hturn, s, p, hs, hp, s', now, -, hcrew, -, heq⟩ := meet_attempted hf he
  have hp' : (q.setSession s').phase? i = some p := by
    rw [← outline_phase?, outline_setSession_of_crew (by rw [outline_crew hs, hcrew]),
      outline_phase?, hp]
  have h' : (q.setSession s').space.Corrupt x row := h
  rw [heq]
  obtain ⟨hrecord, hphase⟩ := takeAt_corrupt h' hh hp'
  refine ⟨?_, hphase⟩
  rw [← heq] at hrecord
  exact does_of_record (l := [.attempted i]) hturn hrecord

end Poll

section Reachable

/-- A row that cannot be read stays byte for byte, and its id waits once, in the ready list or
pending, whatever takes, promotions and reschedules there are and whatever is done to other ids. A
take that pops it gives it back and makes it pending, and none finds its deliveries used up. If no
other row holds a message of this id, no worker has one in its hands, and none is to be produced,
then the queue's own tasks and calls do no more to it either: no handler begins with such a message,
none is committed, and a worker that pops the row does nothing else and holds nothing after it. -/
theorem corrupt_row_kept :
    (∀ (k : Keys) (x : String) (row : Bytes) (before after : List (Keys × StoreOp)),
      ((Store.empty.runAll before).space k).Corrupt x row →
      (∀ op ∈ Store.opsOn k after, op.Spares x) →
      ((Store.empty.runAll before).runAll after).Retains k x row) ∧
    ∀ (c : Config) (faults : Faults) (begun : Clocks) (ids : MessageId.Source) (observed : Bool)
      (q : Queue) (x : String) (row : Bytes) (before after : List Event),
      Queue.new c faults begun ids observed = .ok q →
      let p := q.live before
      let r := p.live after
      p.space.Corrupt x row → p.space.Proper x → p.Frees x →
      (∀ n, p.serial ≤ n → ids.id n ≠ x) →
      (∀ op ∈ p.directs after, op.Spares x ∧ op.Proper x) →
      r.store.Retains r.keys x row ∧
      (∀ e ∈ newEntries p r, e.invokes x = false ∧ e.commits x = false) ∧
      ∀ i e, .attempted i ∈ newEntries r (r.meet e) → r.space.ready.head? = some x →
        r.does i e = [.attempted i] ∧
          ∃ ph, (r.meet e).phase? i = some ph ∧ (ph = .looping false ∨ ph = .broken) := by
  constructor
  · intro k x row before after hc ha
    exact Store.retains_runAll (Store.indexed_runAll k before) hc ha
  · intro c faults begun ids observed q x row before after hq p r hc hp hfree hpast ha
    obtain ⟨ds, ho⟩ := orderly_live (orderly_new hq) before
    have hkeeps : p.Keeps x row := ⟨⟨⟨indexed_live hq, hp⟩, ids_live hq before ▸ hpast, hc⟩, hfree⟩
    obtain ⟨hr, hnew⟩ := live_keeps ho hkeeps ha
    obtain ⟨ds', ho'⟩ := orderly_live ho after
    exact ⟨Store.retains_of_corrupt hr.books.proper.indexed hr.books.corrupt, hnew,
      fun i e he hh => meet_corrupt ho'.fits hr.books.corrupt hh he⟩

/-- Behind the message of the queue another is ready, whose row is written over with a byte that no
row begins with. -/
def corruptBefore : List Event :=
  soloBefore ++ [
    .outside (.ofName "default") (.produce ⟨"a", [1], .epoch, none, none, 0⟩ .epoch),
    .outside (.ofName "default") (.putRow "a" [255])]

/-- The worker deals with the message of the queue. The other is taken with no delivery allowed, and
promoted. -/
def corruptAfter : List Event :=
  List.replicate 8 nextTurn ++ [.outside (.ofName "default") (.take (.ofMillis 5) 0 .epoch),
    .outside (.ofName "default") (.promote .latest 1)]

theorem frees_of_idle (h : (q.session.all fun s => s.workers.all fun w => w.phase.held?.isNone) =
    true) (x : String) : q.Frees x := by
  intro i p m hp hm
  obtain ⟨s, w, hs, hw, rfl⟩ := exists_worker hp
  have hmem : w ∈ s.workers := by
    rw [worker?, hs] at hw
    exact List.mem_of_getElem? hw
  rw [hs] at h
  have hnone : w.phase.held?.isNone = true := List.all_eq_true.mp h w hmem
  rw [hm] at hnone
  cases hnone

theorem corrupt_row_kept_solo :
    let p := soloQueue.live corruptBefore
    let r := p.live corruptAfter
    r.store.Retains r.keys "a" [255] ∧
    (newEntries p r).any (Entry.commits (MessageId.Source.id ⟨0, 0⟩ 0)) = true ∧
    (∀ e ∈ newEntries p r, e.invokes "a" = false ∧ e.commits "a" = false) ∧
    r.space.ready = ["a"] ∧ .attempted 0 ∈ newEntries r (r.meet nextTurn) ∧
    r.does 0 nextTurn = [.attempted 0] := by
  intro p r
  have hq : Queue.new {} .none ⟨.epoch, 0⟩ ⟨0, 0⟩ false = .ok soloQueue := rfl
  have hbefore : soloQueue.directs corruptBefore =
      [.produce ⟨"a", [1], .epoch, none, none, 0⟩ .epoch, .putRow "a" [255]] := by decide +kernel
  have hproper : p.space.Proper "a" := by
    refine (proper_live hq (x := "a") fun op hop => ?_).proper
    rw [hbefore] at hop
    simp only [List.mem_cons, List.not_mem_nil, or_false] at hop
    rcases hop with rfl | rfl
    · exact StoreOp.proper_of_isRaw rfl "a"
    · rintro _ _ _ ⟨⟩ - -
      rfl
  have hcorrupt : p.space.Corrupt "a" [255] := by
    obtain ⟨f, hf⟩ : ∃ f, Row.decode [255] = .error f := Row.exists_error (by decide +kernel)
    exact .of_place hf (.inl (Place.ext (by decide +kernel) (by decide +kernel)
      (by decide +kernel)))
  have hpast : ∀ n, p.serial ≤ n → MessageId.Source.id ⟨0, 0⟩ n ≠ "a" := by
    intro n _ hn
    have hhead : (MessageId.Source.id ⟨0, 0⟩ n).toList.head? = some '0' := by
      simp [MessageId.Source.id, MessageId.Source.head, MessageId.hex]
    rw [hn] at hhead
    exact absurd hhead (by decide)
  have hafter : p.directs corruptAfter = [.take (.ofMillis 5) 0 .epoch, .promote .latest 1] := by
    decide +kernel
  have hspares : ∀ op ∈ p.directs corruptAfter, op.Spares "a" ∧ op.Proper "a" := by
    rw [hafter]
    intro op hop
    simp only [List.mem_cons, List.not_mem_nil, or_false] at hop
    rcases hop with rfl | rfl <;> exact ⟨trivial, StoreOp.proper_of_isRaw rfl "a"⟩
  have hready : r.space.ready = ["a"] := by decide +kernel
  have hattempt : .attempted 0 ∈ newEntries r (r.meet nextTurn) :=
    attempted_mem (by decide +kernel)
  obtain ⟨hretains, hnew, hpoll⟩ := corrupt_row_kept.2 {} .none ⟨.epoch, 0⟩ ⟨0, 0⟩ false soloQueue
    "a" [255] corruptBefore corruptAfter hq hcorrupt hproper
    (frees_of_idle (by decide +kernel) "a") hpast hspares
  exact ⟨hretains, by decide +kernel, hnew, hready, hattempt,
    (hpoll 0 nextTurn hattempt (by rw [hready]; rfl)).1⟩

end Reachable

end Queue

end DelayedQueue
