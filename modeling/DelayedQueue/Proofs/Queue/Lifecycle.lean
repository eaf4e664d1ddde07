import DelayedQueue.Proofs.Queue.Books
import DelayedQueue.Proofs.Queue.Drain
import DelayedQueue.Proofs.Queue.NoLoss

/-! # The life of a queue

Callers may consume a queue, add middleware to it and close it as often as they like, in any
order and while its tasks go on: its life only goes forward, the token and the signal are there
exactly while there are tasks to stop, and each close ends as its deadline and the tasks have it.
-/

namespace DelayedQueue

theorem LifeState.rank_le_stopped (s : LifeState) : s.rank ≤ LifeState.stopped.rank := by
  cases s <;> decide

theorem LifeState.eq_stopped_of_rank_le {s : LifeState} (h : LifeState.stopped.rank ≤ s.rank) :
    s = .stopped := by
  cases s <;> revert h <;> decide

theorem LifeState.running_lt_iff {s : LifeState} :
    LifeState.running.rank < s.rank ↔ s = .shuttingDown ∨ s = .stopped := by
  cases s <;> decide

/-- What a close that was given `d` can have come to in a queue in this state. -/
def Closer.Answers (state : LifeState) (d : Duration) : Closer → Prop
  | .waiting d' _ => d' = d ∧ LifeState.running.rank < state.rank
  | .returned (.ok ()) => state = .stopped
  | .returned (.error e) => e = .shutdownTimeout d ∧ LifeState.running.rank < state.rank

theorem Closer.eq_returned {c : Option Closer} {r : Except QueueError Unit}
    (h : c.bind Closer.result? = some r) : c = some (.returned r) := by
  obtain ⟨c, rfl, h⟩ := Option.bind_eq_some_iff.mp h
  cases c with
  | waiting => cases h
  | returned r' => cases h; rfl

theorem Closer.Answers.mono {state state' : LifeState} {d : Duration} {c : Closer}
    (h : c.Answers state d) (hs : state.rank ≤ state'.rank) : c.Answers state' d := by
  match c with
  | .waiting d' due => exact ⟨h.1, Nat.lt_of_lt_of_le h.2 hs⟩
  | .returned (.ok ()) => exact LifeState.eq_stopped_of_rank_le (h ▸ hs)
  | .returned (.error e) => exact ⟨h.1, Nat.lt_of_lt_of_le h.2 hs⟩

namespace Queue

/-- The deadlines of the closes among these moves, in their order. -/
def closeDeadlines (ms : List Move) : List Duration :=
  ms.filterMap fun m => match m with
    | .close d => some d
    | _ => none

theorem closeDeadlines_of_ne {m : Move} (hm : ∀ d, m ≠ .close d) : closeDeadlines [m] = [] := by
  cases m with
  | close d => exact absurd rfl (hm d)
  | _ => rfl

theorem closeDeadlines_cons (m : Move) (ms : List Move) :
    closeDeadlines (m :: ms) = closeDeadlines [m] ++ closeDeadlines ms :=
  List.filterMap_append (l := [m])

end Queue

namespace Outline

/-- The tasks are as the state has it, and each close as the state and its deadline have it. -/
structure Orderly (deadlines : List Duration) (o : Outline) : Prop where
  fits : o.lifecycle.Fits o.crew
  length : o.closers.length = deadlines.length
  closers : ∀ (j : Nat) (c : Closer) (d : Duration), o.closers[j]? = some c →
    deadlines[j]? = some d → c.Answers o.lifecycle.state d

variable {o o' : Outline} {m : Queue.Move} {ds : List Duration}

theorem Step.rank_le (h : o.Step m o') : o.lifecycle.state.rank ≤ o'.lifecycle.state.rank := by
  cases h with
  | stay | elapse | late | publish | daemon | worker => exact Nat.le_refl _
  | consume _ _ _ hl => rw [hl]; exact Nat.zero_le _
  | close | closed => exact LifeState.rank_le_stopped _
  | shutDown d hl =>
    change o.lifecycle.state.rank ≤ LifeState.shuttingDown.rank
    rcases hl with hl | hl <;> rw [hl] <;> decide

namespace Orderly

variable {j : Nat} {d : Duration} {due : Instant}

theorem exists_answers {c : Closer} (h : o.Orderly ds) (hj : o.closers[j]? = some c) :
    ∃ d, ds[j]? = some d ∧ c.Answers o.lifecycle.state d := by
  have hlt : j < ds.length := h.length ▸ (List.getElem?_eq_some_iff.mp hj).1
  have hd := List.getElem?_eq_getElem hlt
  exact ⟨ds[j], hd, h.closers j c _ hj hd⟩

theorem answers_waiting (h : o.Orderly ds) (hj : o.closers[j]? = some (.waiting d due)) :
    ds[j]? = some d ∧ LifeState.running.rank < o.lifecycle.state.rank := by
  obtain ⟨_, hd, rfl, hr⟩ := h.exists_answers hj
  exact ⟨hd, hr⟩

theorem fits_step (h : o.Orderly ds) (hs : o.Step m o') : o'.lifecycle.Fits o'.crew := by
  have hf := h.fits
  cases hs with
  | stay | elapse | late => exact hf
  | consume base hasExecutor workers hl => exact .running rfl nofun
  | close d hl =>
    change Lifecycle.Fits .stopped o.crew
    generalize o.lifecycle = l, o.crew = c at hf hl
    rcases hl with rfl | rfl
    · cases hf; exact .unused
    · exact hf
  | shutDown d hl =>
    change Lifecycle.Fits .shuttingDown (o.crew.map Crew.cancel)
    generalize o.lifecycle = l, o.crew = c at hf hl
    rcases hl with rfl | rfl <;> cases hf <;> next he =>
      exact .shuttingDown rfl fun hd => ⟨(he hd).daemon, (he hd).workers⟩
  | closed hj hc hd =>
    rw [hc] at hf
    change Lifecycle.Fits .stopped o.crew
    rw [hc]
    exact hf.stop (h.answers_waiting hj).2 hd
  | publish hc he =>
    rw [hc] at hf
    exact hf.setCrew rfl (fun _ => rfl) fun _ => ⟨he.daemon, he.workers⟩
  | daemon hc hp =>
    rw [hc] at hf
    exact hf.setCrew rfl id fun hd => absurd (hf.allEnded hd).daemon hp.not_hasEnded
  | worker hc hi hp =>
    rw [hc] at hf
    simp only [put, hc, Option.map_some]
    exact hf.setCrew rfl id fun hd =>
      absurd ((hf.allEnded hd).workers _ (List.mem_of_getElem? hi)) hp.not_hasEnded

theorem addCloser {l : Lifecycle} {crew : Option Crew} {c : Closer} (h : o.Orderly ds)
    (hf : l.Fits crew) (hl : o.lifecycle.state.rank ≤ l.state.rank) (hc : c.Answers l.state d) :
    (Outline.addCloser c { o with lifecycle := l, crew }).Orderly (ds ++ [d]) where
  fits := hf
  length := by simp [Outline.addCloser, h.length]
  closers j c' d' hj hd := by
    rcases Nat.lt_or_ge j o.closers.length with hlt | hge
    · rw [Outline.addCloser, List.getElem?_append_left hlt] at hj
      rw [List.getElem?_append_left (h.length ▸ hlt)] at hd
      exact (h.closers j c' d' hj hd).mono hl
    · rw [Outline.addCloser, List.getElem?_append_right hge] at hj
      rw [List.getElem?_append_right (h.length ▸ hge)] at hd
      obtain rfl := List.mem_singleton.mp (List.mem_of_getElem? hj)
      obtain rfl := List.mem_singleton.mp (List.mem_of_getElem? hd)
      exact hc

theorem setCloser {l : Lifecycle} {r : Except QueueError Unit} (h : o.Orderly ds)
    (hj : o.closers[j]? = some (.waiting d due)) (hf : l.Fits o.crew)
    (hl : o.lifecycle.state.rank ≤ l.state.rank) (hr : (Closer.returned r).Answers l.state d) :
    (Outline.setCloser j r { o with lifecycle := l }).Orderly ds where
  fits := hf
  length := List.length_set.trans h.length
  closers j' c' d' hj' hd := by
    by_cases he : j = j'
    · subst he
      rw [Outline.setCloser, List.getElem?_set_self (List.getElem?_eq_some_iff.mp hj).1] at hj'
      rw [(h.answers_waiting hj).1] at hd
      cases hj'
      cases hd
      exact hr
    · rw [Outline.setCloser, List.getElem?_set_ne he] at hj'
      exact (h.closers j' c' d' hj' hd).mono hl

theorem of_closers_eq (h : o.Orderly ds) (hm : ∀ d, m ≠ .close d)
    (hf : o'.lifecycle.Fits o'.crew) (hr : o.lifecycle.state.rank ≤ o'.lifecycle.state.rank)
    (hc : o'.closers = o.closers) : o'.Orderly (ds ++ Queue.closeDeadlines [m]) := by
  rw [Queue.closeDeadlines_of_ne hm, List.append_nil]
  refine ⟨hf, hc ▸ h.length, fun j c d hj hd => ?_⟩
  rw [hc] at hj
  exact (h.closers j c d hj hd).mono hr

theorem step (h : o.Orderly ds) (hs : o.Step m o') :
    o'.Orderly (ds ++ Queue.closeDeadlines [m]) := by
  have hf := h.fits_step hs
  have hr := hs.rank_le
  cases hs with
  | stay hm => exact h.of_closers_eq hm hf hr rfl
  | elapse | consume | publish | daemon | worker => exact h.of_closers_eq nofun hf hr rfl
  | close d hl => exact h.addCloser hf hr rfl
  | shutDown d hl => exact h.addCloser hf hr ⟨rfl, by decide⟩
  | closed hj hc hd =>
    rw [Queue.closeDeadlines_of_ne (by rintro _ ⟨⟩), List.append_nil]
    exact h.setCloser (r := .ok ()) hj hf hr rfl
  | late hj hd ht =>
    rw [Queue.closeDeadlines_of_ne (by rintro _ ⟨⟩), List.append_nil]
    exact h.setCloser (r := .error (.shutdownTimeout _)) hj hf hr ⟨rfl, (h.answers_waiting hj).2⟩

end Orderly

end Outline

namespace Queue

variable {c : Config} {faults : Faults} {begun : Clocks} {ids : MessageId.Source} {observed : Bool}
  {q p r : Queue} {ds : List Duration} {before after : List Move}

theorem orderly_new (h : Queue.new c faults begun ids observed = .ok q) : q.outline.Orderly [] := by
  obtain rfl := eq_of_new h
  exact ⟨.idle, rfl, fun j c d hj => by cases hj⟩

theorem orderly_run (h : q.outline.Orderly ds) (ms : List Move) :
    (q.run ms).outline.Orderly (ds ++ closeDeadlines ms) := by
  induction ms generalizing q ds with
  | nil => exact (List.append_nil ds).symm ▸ h
  | cons m ms ih =>
    rw [closeDeadlines_cons, ← List.append_assoc]
    exact ih (h.step (move_step h.fits m))

section Events

theorem orderly_meet (h : q.outline.Orderly ds) (e : Event) :
    ∃ ds', (q.meet e).outline.Orderly ds' := by
  cases e with
  | move m => exact ⟨_, h.step (move_step h.fits m)⟩
  | outside k op => exact ⟨ds, h⟩

theorem orderly_live (h : q.outline.Orderly ds) (es : List Event) :
    ∃ ds', (q.live es).outline.Orderly ds' := by
  induction es generalizing q ds with
  | nil => exact ⟨ds, h⟩
  | cons e es ih =>
    obtain ⟨ds', h'⟩ := orderly_meet h e
    exact ih h'

/-- What each step of the outline keeps holds along a run. -/
theorem outline_live {P : Outline → Prop}
    (hstep : ∀ {o o' : Outline} {m : Move}, o.lifecycle.Fits o.crew → o.Step m o' → P o → P o')
    (h : q.outline.Orderly ds) (hp : P q.outline) (es : List Event) : P (q.live es).outline := by
  induction es generalizing q ds with
  | nil => exact hp
  | cons e es ih =>
    obtain ⟨ds', h'⟩ := orderly_meet h e
    refine ih h' ?_
    cases e with
    | move m => exact hstep h.fits (move_step h.fits m) hp
    | outside k op => exact hp

theorem outline_run {P : Outline → Prop}
    (hstep : ∀ {o o' : Outline} {m : Move}, o.lifecycle.Fits o.crew → o.Step m o' → P o → P o')
    (h : q.outline.Orderly ds) (hp : P q.outline) (ms : List Move) : P (q.run ms).outline := by
  have hrun : q.live (ms.map .move) = q.run ms := List.foldl_map
  rw [← hrun]
  exact outline_live hstep h hp _

theorem state_ne_idle_meet (h : q.outline.Orderly ds) (hi : q.lifecycle.state ≠ .idle)
    (e : Event) : (q.meet e).lifecycle.state ≠ .idle := by
  cases e with
  | outside k op => exact hi
  | move m =>
    intro he
    have hr : q.lifecycle.state.rank ≤ (q.move m).lifecycle.state.rank :=
      (move_step h.fits m).rank_le
    have he : (q.move m).lifecycle.state = .idle := he
    rw [he] at hr
    revert hi hr
    cases q.lifecycle.state <;> decide

end Events

theorem rank_le_run (h : q.outline.Orderly ds) (ms : List Move) :
    q.lifecycle.state.rank ≤ (q.run ms).lifecycle.state.rank :=
  outline_run (P := fun o => q.lifecycle.state.rank ≤ o.lifecycle.state.rank)
    (fun _ hs hr => Nat.le_trans hr hs.rank_le) h (Nat.le_refl _) ms

section Calls

variable {base : Handler} {hasExecutor : Bool}

/-- A consume that is refused changes nothing. One that cannot start the tasks may have logged
it. -/
theorem consume_error {f : ConsumeFault} (h : (q.consume base hasExecutor).1 = .error f) :
    (q.consume base hasExecutor).2 = q ∨ (∃ p, f = .panic p) ∧
      (q.consume base hasExecutor).2 = q.notify (.spawning q.config.workerCount.toNat) := by
  rcases q.consume_cases base hasExecutor with
    ⟨e, he⟩ | ⟨-, ⟨p, q', he, hf⟩ | ⟨q', he, -⟩⟩
  · exact .inl (congrArg Prod.snd he)
  · rw [he] at h ⊢
    cases h
    exact hf.eq_or.imp_right fun hq => ⟨⟨p, rfl⟩, hq⟩
  · rw [he] at h; cases h

theorem consume_ok (h : (q.consume base hasExecutor).1 = .ok ()) :
    q.lifecycle.state = .idle ∧
      q.Spawned (Handler.compose base q.middleware) (q.consume base hasExecutor).2 := by
  rcases q.consume_cases base hasExecutor with
    ⟨e, he⟩ | ⟨hi, ⟨p, q', he, -⟩ | ⟨q', he, hs⟩⟩
  · rw [he] at h; cases h
  · rw [he] at h; cases h
  · rw [he]
    exact ⟨hi, hs⟩

theorem Spawned.lifecycle {h : Handler} {q' : Queue} (hs : q.Spawned h q') :
    q'.lifecycle = .running := congrArg Outline.lifecycle hs.outline

theorem use_error {w : Middleware} {e : QueueError} (h : (q.use w).1 = .error e) :
    (q.use w).2 = q := by
  unfold use at h ⊢
  split at h
  · cases h
  · next hi => simp only [hi, if_false]

end Calls

theorem consume_once (h : p.outline.Orderly ds) {base base' : Handler} {x x' : Bool}
    (hc : (p.consume base x).1 = .ok ()) (ms : List Move) :
    (((p.consume base x).2.run ms).consume base' x').1 ≠ .ok () := by
  intro hc'
  have hs : (p.consume base x).2.outline.Orderly (ds ++ closeDeadlines [.consume base x]) :=
    h.step (consume_step h.fits base x)
  have hr := rank_le_run hs ms
  rw [(consume_ok hc).2.lifecycle, (consume_ok hc').1] at hr
  exact absurd hr (by decide)

/-- In a run of any calls and any steps, with `p` before `r`: the state only goes forward; of all
calls of `consume` at most one succeeds; the token and the signal are there exactly while the queue
runs or shuts down, and the token is cancelled exactly in the states after `running`; a call of
`consume` or `use` that fails changes nothing, but that a consume that panics may have logged that
it began; once a close has returned without an error the queue is stopped for good; and one that
returns with an error has run out of its own time, and leaves the queue on its way to the end of its
tasks, from where a close returns at once. -/
theorem lifecycle_safe (hq : Queue.new c faults begun ids observed = .ok q)
    (hp : q.run before = p) (hr : p.run after = r) :
    p.lifecycle.state.rank ≤ r.lifecycle.state.rank ∧
    (∀ base x base' x', (p.consume base x).1 = .ok () →
      (((p.consume base x).2.run after).consume base' x').1 ≠ .ok ()) ∧
    (p.lifecycle.holdsToken = true ↔
      p.lifecycle.state = .running ∨ p.lifecycle.state = .shuttingDown) ∧
    (p.lifecycle.holdsSignal = true ↔
      p.lifecycle.state = .running ∨ p.lifecycle.state = .shuttingDown) ∧
    (p.lifecycle.holdsToken = true → ∃ s, p.session = some s) ∧
    (∀ s, p.session = some s →
      (s.cancelled = true ↔ LifeState.running.rank < p.lifecycle.state.rank)) ∧
    (∀ base x f, (p.consume base x).1 = .error f → (p.consume base x).2 = p ∨
      (∃ e, f = .panic e) ∧
        (p.consume base x).2 = p.notify (.spawning p.config.workerCount.toNat)) ∧
    (∀ w e, (p.use w).1 = .error e → (p.use w).2 = p) ∧
    (∀ j : Nat, p.closers[j]? = some (.returned (.ok ())) → r.lifecycle.state = .stopped) ∧
    (∀ (j : Nat) e, p.closers[j]? = some (.returned (.error e)) →
      (∃ d, (closeDeadlines before)[j]? = some d ∧ e = .shutdownTimeout d) ∧
      (r.lifecycle.state = .shuttingDown ∨ r.lifecycle.state = .stopped) ∧
      ∃ ms : List Move, (∀ m ∈ ms, m.IsQuiet) ∧ (r.run ms).ClosesAtOnce) := by
  have hop : p.outline.Orderly (closeDeadlines before) := hp ▸ orderly_run (orderly_new hq) before
  have hor := hr ▸ orderly_run hop after
  have hrank : p.lifecycle.state.rank ≤ r.lifecycle.state.rank := hr ▸ rank_le_run hop after
  refine ⟨hrank, ?_, hop.fits.holdsToken_iff, hop.fits.holdsSignal_iff, ?_, ?_, ?_, ?_, ?_, ?_⟩
  · intro base x base' x' hc
    exact consume_once hop hc after
  · intro ht
    obtain ⟨c, hc⟩ := hop.fits.exists_crew ht
    obtain ⟨s, hs, -⟩ := exists_session hc
    exact ⟨s, hs⟩
  · intro s hs
    have hf := hop.fits
    rw [outline_crew hs] at hf
    exact hf.cancelled_iff
  · intro base x f
    exact consume_error
  · intro w e
    exact use_error
  · intro j hj
    obtain ⟨_, -, hstopped⟩ := hop.exists_answers hj
    have hstopped : p.lifecycle.state = .stopped := hstopped
    exact LifeState.eq_stopped_of_rank_le (hstopped ▸ hrank)
  · intro j e hj
    obtain ⟨d, hd, he, hlt⟩ := hop.exists_answers hj
    have hlt' := Nat.lt_of_lt_of_le hlt hrank
    exact ⟨⟨_, hd, he⟩, LifeState.running_lt_iff.mp hlt', exists_closesAtOnce hor.fits hlt'⟩

/-- A handler that never ends is in the way of a close that has no time. -/
def heldUp : List Move :=
  [.produce (.new [1]), .consume (fun _ => .hang) true] ++ List.replicate 3 (.step (.worker 0)) ++
    [.close .zero, .step (.closer 0)]

/-- The handler is given up at its timeout, and the next close gets through. -/
def givenUp : List Move :=
  .elapse ({} : Config).consumeTimeout :: List.replicate 3 (.step (.worker 0)) ++
    [.step .daemon, .step .daemon, .step .supervisor, .close .zero, .step (.closer 1)]

theorem lifecycle_safe_held_up : Queue.new {} .none ⟨.epoch, 0⟩ ⟨0, 0⟩ false = .ok soloQueue ∧
    (soloQueue.run heldUp).closers[0]? = some (.returned (.error (.shutdownTimeout .zero))) ∧
    ((soloQueue.run heldUp).run givenUp).closers[1]? = some (.returned (.ok ())) ∧
    (((soloQueue.run heldUp).run givenUp).lifecycle.state = .shuttingDown ∨
      ((soloQueue.run heldUp).run givenUp).lifecycle.state = .stopped) := by
  have hq : Queue.new {} .none ⟨.epoch, 0⟩ ⟨0, 0⟩ false = .ok soloQueue := rfl
  have h : ((soloQueue.run heldUp).closers[0]?).bind Closer.result? =
        some (.error (.shutdownTimeout .zero)) ∧
      (((soloQueue.run heldUp).run givenUp).closers[1]?).bind Closer.result? = some (.ok ()) := by
    decide +kernel
  obtain ⟨-, -, -, -, -, -, -, -, -, herror⟩ :=
    lifecycle_safe hq (rfl : Queue.run _ heldUp = _) (rfl : Queue.run _ givenUp = _)
  have h0 := Closer.eq_returned h.1
  exact ⟨hq, h0, Closer.eq_returned h.2, (herror 0 _ h0).2.1⟩

end Queue

end DelayedQueue
