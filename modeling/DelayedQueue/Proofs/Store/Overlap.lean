import DelayedQueue.Config.Basic
import DelayedQueue.Proofs.Store.Punctuality

/-! # Redelivery and the handler's deadline

A configuration whose retry interval is no shorter than the time a handler has is taken to keep
redeliveries apart from running handlers. A take rounds its own time and the retry interval down
to whole milliseconds before it adds them, so it can make a message due up to two milliseconds
before the handler's deadline. Past what is rounded off the configuration keeps its promise.
-/

namespace DelayedQueue

/-- It does not wait in the ready list, and falls due at `d` if at all. -/
structure Place.Parked (p : Place) (d : Score) : Prop where
  copies : p.copies = 0
  due : ∀ t, p.due = some t → t = d

/-- A retry falls due no earlier than the deadline, less what is rounded off. -/
theorem Score.lt_addMillis {t p : Time} {retry timeout : Duration} (h : timeout ≤ retry)
    (hlt : p.nanos + t.nanos % 1000000 + retry.nanos % 1000000 < t.nanos + timeout.nanos) :
    p.millis < Score.addMillis t.millis retry := by
  have h : timeout.nanos ≤ retry.nanos := h
  have hl := p.le_latest
  have he := t.earliest_le
  simp only [Score.addMillis, Score.highest, Time.millis, Duration.millis, latestNanos,
    earliestNanos] at hl he ⊢
  omega

namespace Space

variable {s : Space} {x : String} {op : StoreOp} {d : Score} {retry : Duration} {cap : UInt64}
  {t : Time} {row : Bytes}

theorem parked_of_taken (hh : s.ready.head? = some x) (hc : s.ready.count x = 1)
    (ht : (s.takeOne retry cap t).1 = .taken row) :
    ((s.takeOne retry cap t).2.place x).Parked (Score.addMillis t.millis retry) := by
  have hp := pop_of_head retry cap t hh
  have hc' : (s.place x).copies - 1 = 0 := by
    change s.ready.count x - 1 = 0
    rw [hc]
  rw [ht] at hp
  generalize (s.takeOne retry cap t).2.place x = p at hp ⊢
  cases hp with
  | unreadable | delivered => exact ⟨hc', fun _ he => (Option.some.inj he).symm⟩

theorem parked_apply (hi : s.Indexed) (hp : (s.place x).Parked d) (hn : x ∉ op.produced)
    (hr : s.rescheduled? x op = none)
    (hd : ∀ now limit, op = .promote now limit → now.millis < d) :
    ((s.apply op).2.place x).Parked d := by
  have he := effect_apply hi x op
  generalize hq : (s.apply op).2.place x = p at he ⊢
  cases he with
  | spared => exact hp
  | readied h | delayed h => exact absurd (by simp [StoreOp.produced, h]) hn
  | popped hh => exact absurd hp.copies (copies_ne_zero.mpr (List.mem_of_mem_head? hh))
  | committed => exact ⟨hp.copies, fun u hu => by cases hu⟩
  | rescheduled hs => simp [rescheduled?, reschedule_of_some hs] at hr
  | @promoted now limit u hu =>
    obtain rfl := hp.due u hu
    have hle := (promotes_of_place hi hp.copies hu hq).2
    exact absurd hle (Int.not_le.mpr (hd now limit rfl))
  | purged => exact ⟨rfl, fun u hu => by cases hu⟩
  | overwritten => exact ⟨hp.copies, hp.due⟩

theorem handedOut?_of_parked (hp : (s.place x).Parked d) : s.handedOut? x op = none := by
  cases ho : s.handedOut? x op with
  | none => rfl
  | some row =>
    obtain ⟨-, -, -, -, hh, -⟩ := handedOut?_eq_some ho
    exact absurd hp.copies (copies_ne_zero.mpr (List.mem_of_mem_head? hh))

theorem parked_run {ops : List StoreOp} (hi : s.Indexed) (hp : (s.place x).Parked d)
    (hn : ∀ op ∈ ops, x ∉ op.produced)
    (hr : ∀ e ∈ s.history ops, e.1.rescheduled? x e.2 = none)
    (hd : ∀ now limit, .promote now limit ∈ ops → now.millis < d) :
    ((s.run ops).place x).Parked d ∧ ∀ e ∈ s.history ops, e.1.handedOut? x e.2 = none := by
  induction ops using List.reverseRecOn with
  | nil => exact ⟨hp, by simp [history]⟩
  | append_singleton ops op ih =>
    simp only [history_concat, List.mem_append, List.mem_singleton] at hn hr hd ⊢
    obtain ⟨hp', ho⟩ := ih (fun o h => hn o (.inl h)) (fun e h => hr e (.inl h))
      fun now limit h => hd now limit (.inl h)
    rw [run_concat]
    constructor
    · exact parked_apply (hi.run ops) hp' (hn op (.inr rfl)) (hr _ (.inr rfl))
        fun now limit he => hd now limit (.inr he.symm)
    · rintro e (he | rfl)
      · exact ho e he
      · exact handedOut?_of_parked hp'

end Space

namespace Store

variable {k : Keys} {x : String}

/-- While the retry interval is no shorter than the time a handler has, a message that was handed
out is neither moved nor handed out again before its handler's deadline, less what is rounded off
the time of the take and the retry interval, unless it is set anew. -/
theorem no_redelivery_before_deadline {c : Config} {before between : List (Keys × StoreOp)}
    {t p : Time} {cap : UInt64} {row : Bytes} (hc : c.redeliveryOverlaps = false)
    (hh : ((empty.runAll before).space k).ready.head? = some x)
    (h1 : ((empty.runAll before).space k).ready.count x = 1)
    (ht : ((empty.runAll before).apply k (.take c.retryInterval cap t)).1 = .took (.taken row))
    (hn : ∀ op ∈ opsOn k between, x ∉ op.produced)
    (hp : ∀ now limit, .promote now limit ∈ opsOn k between → now.nanos ≤ p.nanos)
    (hlt : p.nanos + t.nanos % 1000000 + c.retryInterval.nanos % 1000000 <
      t.nanos + c.consumeTimeout.nanos) :
    let taken := ((empty.runAll before).apply k (.take c.retryInterval cap t)).2
    (∀ e ∈ taken.history k between, e.1.rescheduled? x e.2 = none) →
    (∀ e ∈ taken.history k between, e.1.handedOut? x e.2 = none) ∧
      ∀ limit, x ∉ (((taken.runAll between).apply k (.promote p limit)).2.space k).ready := by
  intro taken hr
  set s := (empty.runAll before).space k with hs
  have hi : s.Indexed := by
    rw [hs, space_runAll, space_empty]
    exact Space.indexed_empty.run _
  have hle : c.consumeTimeout ≤ c.retryInterval := Nat.not_lt.mp (of_decide_eq_false hc)
  have hdue : p.millis < Score.addMillis t.millis c.retryInterval := Score.lt_addMillis hle hlt
  rw [apply_fst] at ht
  have htaken : taken.space k = (s.apply (.take c.retryInterval cap t)).2 := space_apply _
  have hparked : ((taken.space k).place x).Parked (Score.addMillis t.millis c.retryInterval) := by
    rw [htaken]
    exact Space.parked_of_taken hh h1 (StoreResult.took.inj ht)
  rw [history_eq] at hr ⊢
  have hi' : (taken.space k).Indexed := htaken ▸ hi.apply _
  have hbefore {now : Time} (h : now.nanos ≤ p.nanos) :
      now.millis < Score.addMillis t.millis c.retryInterval :=
    Int.lt_of_le_of_lt (Int.ediv_le_ediv (by decide) h) hdue
  obtain ⟨hrun, ho⟩ := Space.parked_run hi' hparked hn hr
    fun now limit h => hbefore (hp now limit h)
  refine ⟨ho, fun limit hm => ?_⟩
  rw [space_apply, space_runAll] at hm
  have hmoved : ((((taken.space k).run (opsOn k between)).apply (.promote p limit)).2.place
      x).Parked (Score.addMillis t.millis c.retryInterval) :=
    Space.parked_apply (hi'.run _) hrun nofun rfl fun now n he => by cases he; exact hdue
  exact Space.copies_ne_zero.mpr hm hmoved.copies

/-- The time this many microseconds after 1970. -/
def clockAtMicros (us : Nat) : Time := (Time.ofMicros? us).getD .epoch

/-- Handlers have as long as the retry interval. -/
def overlapConfig (ms : UInt64) : Config :=
  { retryInterval := .ofMillis ms, consumeTimeout := .ofMillis ms }

def overlapBefore : List (Keys × StoreOp) :=
  [(.ofName "q", .produce ⟨"a", [1], .epoch, none, none, 0⟩ .epoch)]

def overlapBetween : List (Keys × StoreOp) :=
  [(.ofName "q", .promote (clockAtMicros 1500) 3), (.ofName "p", .promote .latest 1),
    (.ofName "q", .take (.ofMillis 2) 4 (clockAtMicros 1500))]

theorem no_redelivery_just_before_deadline :
    let c := overlapConfig 2
    let t := clockAtMicros 900
    let p := clockAtMicros 1999
    let taken := ((empty.runAll overlapBefore).apply (.ofName "q")
      (.take c.retryInterval c.maxDeliveries t)).2
    p.nanos + t.nanos % 1000000 + c.retryInterval.nanos % 1000000 <
      t.nanos + c.consumeTimeout.nanos ∧
    (∀ e ∈ taken.history (.ofName "q") overlapBetween, e.1.handedOut? "a" e.2 = none) ∧
    "a" ∉ (((taken.runAll overlapBetween).apply (.ofName "q") (.promote p 1)).2.space
      (.ofName "q")).ready := by
  intro c t p taken
  have hops : opsOn (.ofName "q") overlapBetween = [.promote (clockAtMicros 1500) 3,
      .take (.ofMillis 2) 4 (clockAtMicros 1500)] := by decide +kernel
  have ht : ((empty.runAll overlapBefore).apply (.ofName "q")
      (.take c.retryInterval c.maxDeliveries t)).1 =
        .took (.taken (Row.encode ⟨"a", [1], .epoch, none, some .epoch, 1⟩)) := by decide +kernel
  have hn : ∀ op ∈ opsOn (.ofName "q") overlapBetween, "a" ∉ op.produced := by decide +kernel
  have hp : ∀ now limit, .promote now limit ∈ opsOn (.ofName "q") overlapBetween →
      now.nanos ≤ p.nanos := by
    rw [hops]
    intro now limit hm
    obtain ⟨rfl, -⟩ : now = clockAtMicros 1500 ∧ limit = 3 := by simpa using hm
    decide
  have hlt : p.nanos + t.nanos % 1000000 + c.retryInterval.nanos % 1000000 <
      t.nanos + c.consumeTimeout.nanos := by decide
  have hr : ∀ e ∈ taken.history (.ofName "q") overlapBetween,
      e.1.rescheduled? "a" e.2 = none := by
    rw [history_eq, hops]
    simp only [Space.history, List.forall_mem_cons, Space.rescheduled?]
    simp
  obtain ⟨ho, hx⟩ := no_redelivery_before_deadline (c := c) (k := .ofName "q") (x := "a")
    (by decide) (by decide +kernel) (by decide +kernel) ht hn hp hlt hr
  exact ⟨hlt, ho, hx 1⟩

/-- A take at 900 µs makes the message due at 1 ms, though the handler has until 1900 µs. -/
theorem redelivery_before_deadline :
    let c := overlapConfig 1
    let t := clockAtMicros 900
    let p := clockAtMicros 1000
    let start := empty.runAll overlapBefore
    let taken := (start.apply (.ofName "q") (.take c.retryInterval c.maxDeliveries t)).2
    c.validate = .ok () ∧ c.redeliveryOverlaps = false ∧
    (start.apply (.ofName "q") (.take c.retryInterval c.maxDeliveries t)).1 =
      .took (.taken (Row.encode ⟨"a", [1], .epoch, none, some .epoch, 1⟩)) ∧
    t ≤ p ∧ p.nanos < t.nanos + c.consumeTimeout.nanos ∧
    (taken.space (.ofName "q")).ready = [] ∧
    (taken.apply (.ofName "q") (.promote p 1)).1 = .count 1 ∧
    ((taken.apply (.ofName "q") (.promote p 1)).2.space (.ofName "q")).ready = ["a"] := by
  decide +kernel

end Store

end DelayedQueue
