import DelayedQueue.Proofs.Queue.Balance

/-! # No message is lost

Whatever callers, workers and the daemon do, in whichever order, a message that has been
produced stays in its place until a handler has succeeded with it or has had all of its
deliveries.
-/

namespace DelayedQueue.Queue

variable {c : Config} {ids : MessageId.Source} {q : Queue} {faults : Faults} {begun : Clocks}
  {observed : Bool}

/-- The handlers and the middleware that a move brings along are mannered. -/
def Move.Mannered : Move → Prop
  | .use w => Middleware.Mannered w
  | .consume base _ => Handler.Mannered base
  | _ => True

theorem validate_of_new (h : Queue.new c faults begun ids observed = .ok q) :
    c.validate = .ok () := by
  unfold Queue.new at h
  split at h
  · cases h
  · next hv => exact hv

theorem eq_of_new (h : Queue.new c faults begun ids observed = .ok q) :
    q = ({ config := c, store := .empty, faults, begun, now := begun.instant, ids, serial := 0,
           observed, middleware := [], lifecycle := .idle, session := none, closers := [],
           journal := [] } : Queue).notify .created := by
  unfold Queue.new at h
  split at h
  · cases h
  · exact (Except.ok.inj h).symm

theorem balanced_new (h : Queue.new c faults begun ids observed = .ok q) : q.Balanced c ids := by
  obtain rfl := eq_of_new h
  refine Balanced.notify ?_ _
  refine ⟨rfl, rfl, ?_, fun _ hw => absurd hw List.not_mem_nil, nofun⟩
  have hk : Issued ids 0 = fun _ => False := by
    funext x
    exact eq_false fun ⟨n, hn, _⟩ => absurd hn (Nat.not_lt_zero n)
  rw [Store.space_empty, hk]
  exact Space.Ledger.empty

namespace Balanced

theorem move (h : q.Balanced c ids) {m : Move} (hm : m.Mannered) : (q.move m).Balanced c ids := by
  cases m with
  | produce d => exact h.afterCall fun _ _ he => h.produce he
  | redeliverAt id t => exact h.redeliverAt id t
  | redeliverAfter id delay => exact h.afterCall fun _ _ he => h.redeliverAfter he
  | use w => exact h.use hm
  | consume base hasExecutor => exact h.consume hm hasExecutor
  | close deadline => exact h.beginClose deadline
  | step t => exact h.step t
  | elapse d => exact ⟨h.config, h.source, h.ledger, h.middleware, h.session⟩

theorem run (h : q.Balanced c ids) {ms : List Move} (hms : ∀ m ∈ ms, m.Mannered) :
    (q.run ms).Balanced c ids := by
  induction ms generalizing q with
  | nil => exact h
  | cons m ms ih =>
    exact ih (h.move (hms m List.mem_cons_self)) fun m hm => hms m (List.mem_cons_of_mem _ hm)

end Balanced

theorem maxDeliveries_toNat (c : Config) : c.maxDeliveries.toNat = c.retryTimes.toNat + 1 := by
  have h := c.retryTimes.toNat_lt
  simp only [Config.maxDeliveries, UInt64.toNat_add, UInt32.toNat_toUInt64]
  exact Nat.mod_eq_of_lt (by simp; omega)

/-- After any moves of callers, workers and the daemon, each message that has been produced is
stored, or a handler has succeeded with it, or handlers have had it once more than there are
retries. One that is stored is ready or pending, and not both. -/
theorem no_silent_loss (hq : Queue.new c faults begun ids observed = .ok q) {ms : List Move}
    (hms : ∀ m ∈ ms, m.Mannered) {n : Nat} (hn : n < (q.run ms).serial) :
    ((q.run ms).space.row? (ids.id n) ≠ none →
      Xor (ids.id n ∈ (q.run ms).space.ready) ((q.run ms).space.score? (ids.id n) ≠ none)) ∧
    ((q.run ms).space.row? (ids.id n) ≠ none ∨ HasSucceeded (q.run ms).journal (ids.id n) ∨
      invocations (q.run ms).journal (ids.id n) = c.retryTimes.toNat + 1) := by
  have hb := (balanced_new hq).run hms
  have hl := hb.ledger
  rw [← hb.keys] at hl
  refine ⟨(Space.placed_of_sound hl.indexed hl.sound).placed _, ?_⟩
  by_cases hr : (q.run ms).space.row? (ids.id n) = none
  · refine .inr ((hl.gone _ ⟨n, hn, rfl⟩ hr).imp_right fun h => ?_)
    exact h.trans (maxDeliveries_toNat c)
  · exact .inl hr

/-- A queue with one worker that is about to take its first message. -/
def soloQueue : Queue :=
  ({ config := {}, store := .empty, faults := .none, begun := ⟨.epoch, 0⟩, now := 0, ids := ⟨0, 0⟩,
     serial := 0, observed := false, middleware := [], lifecycle := .idle, session := none,
     closers := [], journal := [] : Queue }).notify .created

/-- The worker takes a message, and its handler succeeds. -/
def soloMoves : List Move :=
  [.use Handler.tracing, .produce (.new [1]), .consume (Scripts.handler [("*", [[]])] id) true] ++
    List.replicate 9 (.step (.worker 0))

theorem no_silent_loss_solo : Queue.new {} .none ⟨.epoch, 0⟩ ⟨0, 0⟩ false = .ok soloQueue ∧
    (∀ m ∈ soloMoves, m.Mannered) ∧ 0 < (soloQueue.run soloMoves).serial ∧
    (soloQueue.run soloMoves).space.row? (MessageId.Source.id ⟨0, 0⟩ 0) = none ∧
    HasSucceeded (soloQueue.run soloMoves).journal (MessageId.Source.id ⟨0, 0⟩ 0) := by
  have hq : Queue.new {} .none ⟨.epoch, 0⟩ ⟨0, 0⟩ false = .ok soloQueue := rfl
  have hms : ∀ m ∈ soloMoves, m.Mannered := by
    intro m hm
    simp only [soloMoves, List.cons_append, List.nil_append, List.mem_cons,
      List.mem_replicate] at hm
    rcases hm with rfl | rfl | rfl | ⟨-, rfl⟩
    · exact Handler.mannered_tracing
    · trivial
    · exact Scripts.mannered_handler _ id
    · trivial
  obtain ⟨hn, hr, hi⟩ : 0 < (soloQueue.run soloMoves).serial ∧
      (soloQueue.run soloMoves).space.row? (MessageId.Source.id ⟨0, 0⟩ 0) = none ∧
      invocations (soloQueue.run soloMoves).journal (MessageId.Source.id ⟨0, 0⟩ 0) ≠
        ({} : Config).retryTimes.toNat + 1 := by decide +kernel
  exact ⟨hq, hms, hn, hr,
    ((no_silent_loss hq hms hn).2.resolve_left (not_not_intro hr)).resolve_right hi⟩

end DelayedQueue.Queue
