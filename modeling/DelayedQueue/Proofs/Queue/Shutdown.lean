import DelayedQueue.Proofs.Queue.Deeds
import DelayedQueue.Proofs.Queue.Lifecycle

/-! # Shutting down gracefully

A close lets the workers finish what they have in hand and take nothing new. No handler is cut
off but by its own deadline, and when a close returns without an error all tasks have ended and
each success has been committed, unless the clock could not be read when the handler was done.
-/

namespace DelayedQueue

namespace Entry

/-- Whether a handler has returned for message `x` without an error. -/
def succeeds (x : String) : Entry → Bool
  | .ended _ m .success => m.id == x
  | _ => false

/-- Whether message `x` has been committed. -/
def commits (x : String) : Entry → Bool
  | .committed _ y => y == x
  | _ => false

end Entry

namespace Queue

variable {c : Config} {faults : Faults} {begun : Clocks} {ids : MessageId.Source} {observed : Bool}
  {q p r : Queue} {ds : List Duration} {before after : List Move}

def phase? (q : Queue) (i : Nat) : Option Worker.Phase := (q.worker? i).map Worker.phase

/-- What worker `i` has done, the latest first. -/
def deedsOf (q : Queue) (i : Nat) : List (Instant × Entry) :=
  q.journal.filter fun e => e.2.worker? == some i

section View

theorem outline_phase? (i : Nat) : q.outline.phase? i = q.phase? i := by
  unfold Outline.phase? phase? worker?
  cases hs : q.session with
  | none => simp [outline, hs]
  | some s => simp [outline, hs, Session.crew]

theorem outline_deedsOf (i : Nat) : q.outline.deedsOf i = q.deedsOf i := by
  have h (e : Instant × Entry) :
      (e.2.worker? == some i && e.2.isDeed) = (e.2.worker? == some i) := by
    cases hw : e.2.worker? with
    | none => rfl
    | some j => simp [Entry.isDeed, hw]
  simp only [Outline.deedsOf, outline, deedsOf, List.filter_filter, h]

theorem outline_opens :
    q.outline.deeds.filter (fun e => e.2.opens) = q.journal.filter fun e => e.2.opens := by
  have h (e : Instant × Entry) : (e.2.opens && e.2.isDeed) = e.2.opens := by
    cases he : e.2.opens with
    | false => rfl
    | true => simp [Entry.isDeed_of_opens he]
  simp only [outline, List.filter_filter, h]

theorem isCancelled_iff :
    q.isCancelled = true ↔ ∃ c, q.outline.crew = some c ∧ c.cancelled = true := by
  cases hs : q.session with
  | none => simp [isCancelled, outline, hs]
  | some s => simp [isCancelled, outline, hs, Session.crew]

end View

theorem kept_new (h : Queue.new c faults begun ids observed = .ok q)
    (hf : ∀ n, (.commit, n) ∉ faults.plan) : q.outline.Kept c begun := by
  obtain rfl := eq_of_new h
  exact ⟨rfl, rfl, hf, fun _ _ hd => (by cases hd), fun _ => .nil⟩

theorem kept_run (h : q.outline.Orderly ds) (hk : q.outline.Kept c begun) (ms : List Move) :
    (q.run ms).outline.Kept c begun :=
  outline_run (fun hf hs hk => hk.step hf hs) h hk ms

theorem opens_run (h : q.outline.Orderly ds) (hc : q.isCancelled = true) (ms : List Move) :
    (q.run ms).journal.filter (fun e => e.2.opens) = q.journal.filter fun e => e.2.opens := by
  induction ms generalizing q ds with
  | nil => rfl
  | cons m ms ih =>
    have hs := move_step h.fits m
    obtain ⟨hc', ho⟩ := hs.of_cancelled h.fits (isCancelled_iff.mp hc)
    rw [outline_opens, outline_opens] at ho
    exact (ih (h.step hs) (isCancelled_iff.mpr hc')).trans ho

theorem allEnded_of_closed {s : Session} {j : Nat} (h : q.outline.Orderly ds)
    (hs : q.session = some s) (hj : q.closers[j]? = some (.returned (.ok ()))) :
    s.crew.AllEnded := by
  obtain ⟨d, -, hstopped⟩ := h.exists_answers hj
  have hf := h.fits
  rw [outline_crew hs] at hf
  have hstopped : q.outline.lifecycle.state = .stopped := hstopped
  generalize q.outline.lifecycle = l at hf hstopped
  cases hf with
  | running | shuttingDown => cases hstopped
  | stopped _ _ he => exact he

theorem hasEnded_of_allEnded {s : Session} {i : Nat} {ph : Worker.Phase} (h : s.crew.AllEnded)
    (hs : q.session = some s) (hi : q.phase? i = some ph) : ph.HasEnded := by
  obtain ⟨w, hw, rfl⟩ := Option.map_eq_some_iff.mp hi
  exact h.workers _ (List.mem_map_of_mem (List.mem_of_getElem? (getElem?_workers hs hw)))

/-- In a run in which the store commits whenever it is asked to, with `p` before `r`: once the token
is cancelled there are no more takes and no more handlers that begin; a handler at work is moved by
its own steps only, and ends at its own end, be it a return or a panic, or when the timeout since
its invocation has passed; and when a close of a queue with tasks has returned without an error,
all tasks have ended, no handler is at work, and the next deed of a worker after each success is
its commit, if the clock could be read when the handler returned. -/
theorem graceful_shutdown (hq : Queue.new c faults begun ids observed = .ok q)
    (hf : ∀ n, (.commit, n) ∉ faults.plan) (hp : q.run before = p) (hr : p.run after = r) :
    (p.isCancelled = true →
      r.journal.filter (fun e => e.2.opens) = p.journal.filter fun e => e.2.opens) ∧
    (∀ i d, p.phase? i = some (.handling d) →
      (∃ t, (t, .invoked i d.message) ∈ p.journal ∧ d.deadline = t.deadline c.consumeTimeout) ∧
      ∀ m, (p.move m).phase? i = some (.handling d) ∨ m = .step (.worker i) ∧
        ((∃ a wake, d.activity.Leads a ∧
            (p.move m).phase? i = some (.handling { d with activity := a, wake })) ∨
          ∃ o, (p.now, .ended i d.message o) ∈ (p.move m).journal ∧
            ((∃ e, d.activity = .finish e ∧ o = (outcomeOf d.message e).1) ∨
              d.deadline ≤ p.now ∧ o = lateOutcome c))) ∧
    (∀ s (j : Nat), p.session = some s → p.closers[j]? = some (.returned (.ok ())) →
      s.daemon.hasEnded = true ∧ (∀ w ∈ s.workers, w.hasEnded = true) ∧
      (∀ i d, p.phase? i ≠ some (.handling d)) ∧
      ∀ i t m now l l', p.deedsOf i = l ++ (t, .ended i m .success) :: l' →
        WallClock.readAt begun t = .ok now →
        ∃ t', l.getLast? = some (t', .committed i m.id)) := by
  have hop : p.outline.Orderly (closeDeadlines before) := hp ▸ orderly_run (orderly_new hq) before
  have hkp : p.outline.Kept c begun := hp ▸ kept_run (orderly_new hq) (kept_new hq hf) before
  refine ⟨?_, ?_, ?_⟩
  · intro hc
    rw [← hr]
    exact opens_run hop hc after
  · intro i d hd
    constructor
    · obtain ⟨t, ht, hdeadline⟩ := hkp.invoked i d ((outline_phase? i).trans hd)
      exact ⟨t, List.mem_of_mem_filter ht, hdeadline⟩
    · intro m
      have hstep := (move_step hop.fits m).handling hop.fits ((outline_phase? i).trans hd)
      simp only [outline_phase?] at hstep
      rcases hstep with hsame | ⟨hm, hgoOn | ⟨o, ho, he⟩⟩
      · exact .inl hsame
      · exact .inr ⟨hm, .inl hgoOn⟩
      · refine .inr ⟨hm, .inr ⟨o, List.mem_of_mem_filter he, ?_⟩⟩
        cases ho with
        | finished hfinish => exact .inl ⟨_, hfinish, rfl⟩
        | late hlate => exact .inr ⟨hlate, congrArg lateOutcome hkp.config_eq⟩
  · intro s j hs hj
    have he := allEnded_of_closed hop hs hj
    have hended {i : Nat} {ph : Worker.Phase} : p.phase? i = some ph → ph.HasEnded :=
      hasEnded_of_allEnded he hs
    obtain ⟨hdaemon, hworkers⟩ := Bool.and_eq_true_iff.mp (Session.allEnded_iff.mpr he)
    refine ⟨hdaemon, List.all_eq_true.mp hworkers, ?_, ?_⟩
    · intro i d hi
      rcases hended hi with h | h <;> cases h
    · intro i t m now l l' hl hw
      have howes : (p.phase? i).bind Worker.Phase.owes = none := by
        cases hi : p.phase? i with
        | none => rfl
        | some ph => exact (hended hi).owes
      have ha := hkp.answered i
      rw [outline_phase?, outline_deedsOf, howes, hl] at ha
      exact ha.exists_committed ⟨rfl, now, hw⟩

/-- A handler begins to pause. -/
def pausing : List Move :=
  [.produce (.new [1]), .consume (fun _ => .pause (.ofMillis 20) (.finish .success)) true] ++
    List.replicate 4 (.step (.worker 0))

/-- A close comes while the handler pauses. -/
def overtaken : List Move := pausing ++ [.close (.ofMillis 50)]

/-- The handler finishes, and after it the tasks. -/
def finished : List Move :=
  .elapse (.ofMillis 20) :: List.replicate 4 (.step (.worker 0)) ++
    [.step .daemon, .step .daemon, .step .supervisor, .step (.closer 0)]

theorem graceful_shutdown_overtaken : Queue.new {} .none ⟨.epoch, 0⟩ ⟨0, 0⟩ false = .ok soloQueue ∧
    (∀ n, (.commit, n) ∉ Faults.none.plan) ∧ (soloQueue.run overtaken).isCancelled = true ∧
    ((soloQueue.run overtaken).run finished).journal.filter (fun e => e.2.opens) =
      (soloQueue.run overtaken).journal.filter (fun e => e.2.opens) ∧
    ∃ s, (soloQueue.run (overtaken ++ finished)).session = some s ∧
      (soloQueue.run (overtaken ++ finished)).closers[0]? = some (.returned (.ok ())) ∧
      s.daemon.hasEnded = true ∧ ∀ w ∈ s.workers, w.hasEnded = true := by
  have hq : Queue.new {} .none ⟨.epoch, 0⟩ ⟨0, 0⟩ false = .ok soloQueue := rfl
  have hf : ∀ n, (.commit, n) ∉ Faults.none.plan := fun n => List.not_mem_nil
  have h : (soloQueue.run overtaken).isCancelled = true ∧
      (soloQueue.run (overtaken ++ finished)).session.isSome = true ∧
      ((soloQueue.run (overtaken ++ finished)).closers[0]?).bind Closer.result? =
        some (.ok ()) := by decide +kernel
  obtain ⟨s, hs⟩ := Option.isSome_iff_exists.mp h.2.1
  have hj := Closer.eq_returned h.2.2
  obtain ⟨hopens, -, -⟩ :=
    graceful_shutdown hq hf (rfl : Queue.run _ overtaken = _) (rfl : Queue.run _ finished = _)
  obtain ⟨-, -, hclosed⟩ :=
    graceful_shutdown hq hf (rfl : Queue.run _ (overtaken ++ finished) = _)
      (rfl : Queue.run _ [] = _)
  exact ⟨hq, hf, h.1, hopens h.1, s, hs, hj, (hclosed s 0 hs hj).1, (hclosed s 0 hs hj).2.1⟩

/-- Ten milliseconds before the end of the wall clock. -/
def lastMoments : Time := ⟨8210266876799990000000, false, by decide, by decide, nofun⟩

def lateQueue : Queue := { soloQueue with begun := ⟨lastMoments, 0⟩ }

/-- The handler finishes after the end of the wall clock, and then a close comes. -/
def outlasted : List Move :=
  pausing ++ [.elapse (.ofMillis 20), .step (.worker 0), .elapse (.ofMillis 20),
    .close (.ofMillis 10), .step .daemon, .step .daemon, .step .supervisor, .step (.closer 0)]

/-- A worker that cannot read the clock is lost between a success and its commit. -/
theorem not_all_committed : ¬ ∀ (c : Config) (faults : Faults) (begun : Clocks)
    (ids : MessageId.Source) (observed : Bool) (q : Queue) (ms : List Move),
    Queue.new c faults begun ids observed = .ok q → (∀ n, (.commit, n) ∉ faults.plan) →
    ∀ (s : Session) (j : Nat), (q.run ms).session = some s →
      (q.run ms).closers[j]? = some (.returned (.ok ())) →
      ∀ x, (q.run ms).journal.any (fun e => e.2.succeeds x) = true →
        (q.run ms).journal.any (fun e => e.2.commits x) = true := by
  intro hall
  obtain ⟨hs, hj, hsucceeds, hcommits⟩ :
      (lateQueue.run outlasted).session.isSome = true ∧
      ((lateQueue.run outlasted).closers[0]?).bind Closer.result? = some (.ok ()) ∧
      (lateQueue.run outlasted).journal.any
        (fun e => e.2.succeeds (MessageId.Source.id ⟨0, 0⟩ 0)) = true ∧
      (lateQueue.run outlasted).journal.any
        (fun e => e.2.commits (MessageId.Source.id ⟨0, 0⟩ 0)) = false := by decide +kernel
  obtain ⟨s, hs⟩ := Option.isSome_iff_exists.mp hs
  have hq : Queue.new {} .none ⟨lastMoments, 0⟩ ⟨0, 0⟩ false = .ok lateQueue := rfl
  have hc := hall _ _ _ _ _ lateQueue outlasted hq (fun _ => List.not_mem_nil) s 0 hs
    (Closer.eq_returned hj) _ hsucceeds
  rw [hcommits] at hc
  cases hc

end Queue

end DelayedQueue
