import DelayedQueue.Proofs.Message.RoundTrip
import DelayedQueue.Proofs.Store.Independence

/-! # A take from any rows

Rows may be any bytes. A take moves the ready list on by one id and touches that id alone: what it
gives back, and where the id is afterwards, depends on its row only. No sum in it leaves 64 bits.
The span until the retry is cut to 64 bits before it is added. From 1970 on that is the same as to
cut the sum alone.
-/

namespace DelayedQueue

namespace Score

variable {d : Duration}

/-- Scores are kept in 64 signed bits. -/
def Representable (s : Int) : Prop := -9223372036854775808 ≤ s ∧ s ≤ 9223372036854775807

theorem representable_millis (t : Time) : Representable t.millis := by
  have h₁ := t.earliest_le
  have h₂ := t.le_latest
  simp only [Representable, Time.millis, earliestNanos, latestNanos] at *
  omega

theorem representable_addMillis {s : Int} (h : Representable s) :
    Representable (addMillis s d) := by
  simp only [Representable, addMillis, highest] at *
  omega

theorem addMillis_eq_min {s : Int} (h : 0 ≤ s ∨ (d.millis : Int) ≤ highest) :
    addMillis s d = min (s + d.millis) highest := by
  change (min (s + min (d.millis : Int) highest) highest : Int) = min (s + d.millis) highest
  simp only [highest] at *
  omega

end Score

namespace Row

theorem decode_delivered {m : Message} {row : Bytes} (h : decode row = .ok m) (now : Time) :
    decode (encode { m with deliveries := m.deliveries + 1, redeliverAt := some now }) =
      .ok { m with deliveries := m.deliveries + 1, redeliverAt := some now.floorMillis } := by
  have hm := floorMillis_of_decode h
  have hcreate : m.createAt.floorMillis = m.createAt := congrArg Message.createAt hm
  have hdeliver : m.deliverAt.map Time.floorMillis = m.deliverAt := congrArg Message.deliverAt hm
  rw [decode_encode]
  simp only [Message.floorMillis, hcreate, hdeliver, Option.map_some]

end Row

namespace Space

variable {s : Space} {x : String} {rest : List String} {retry : Duration} {cap : UInt64}
  {now : Time} {p : Place} {k : Take}

theorem takeOne_of_pop (hh : s.ready.head? = some x) (h : Pop x retry cap now (s.place x) k p) :
    (s.takeOne retry cap now).1 = k ∧ (s.takeOne retry cap now).2.row? x = p.row ∧
      (s.takeOne retry cap now).2.score? x = p.due := by
  have hpop := pop_of_head retry cap now hh
  have hplace := h.unique hpop
  exact ⟨h.result_unique hpop, congrArg Place.row hplace, congrArg Place.due hplace⟩

/-- What a take gives back and leaves of a space whose ready list begins with `x`. -/
structure TakesHead (s : Space) (x : String) (rest : List String) (retry : Duration) (cap : UInt64)
    (now : Time) (r : Take × Space) : Prop where
  ready : r.2.ready = rest
  others : ∀ y, y ≠ x → r.2.row? y = s.row? y ∧ r.2.score? y = s.score? y
  rowless : s.row? x = none → r.1 = .empty ∧ r.2.row? x = none ∧ r.2.score? x = none
  /-- A row that cannot be read stays as it is, byte for byte, and is retried like any other. -/
  unreadable : ∀ row f, s.row? x = some row → Row.decode row = .error f →
    r.1 = .taken row ∧ r.2.row? x = some row ∧
      r.2.score? x = some (Score.addMillis now.millis retry)
  exhausted : ∀ row m, s.row? x = some row → Row.decode row = .ok m → cap ≤ m.deliveries →
    r.1 = .exhausted x m.deliveries ∧ r.2.row? x = none ∧ r.2.score? x = none
  delivered : ∀ row m, s.row? x = some row → Row.decode row = .ok m → m.deliveries < cap →
    (∃ row', r.1 = .taken row' ∧ r.2.row? x = some row' ∧
      r.2.score? x = some (Score.addMillis now.millis retry) ∧
      Row.decode row' = .ok
        { m with deliveries := m.deliveries + 1, redeliverAt := some now.floorMillis }) ∧
    (m.deliveries + 1).toNat = m.deliveries.toNat + 1

theorem takesHead_takeOne (h : s.ready = x :: rest) :
    s.TakesHead x rest retry cap now (s.takeOne retry cap now) := by
  have hhead : s.ready.head? = some x := by rw [h, List.head?_cons]
  refine ⟨by rw [ready_takeOne, h, List.tail_cons], fun y hy => ?_,
    fun hr => takeOne_of_pop hhead (.dangling hr),
    fun _ _ hr hf => takeOne_of_pop hhead (.unreadable hr hf),
    fun _ _ hr hm hc => takeOne_of_pop hhead (.exhausted hr hm hc), fun _ _ hr hm hc => ?_⟩
  · have hplace : (s.takeOne retry cap now).2.place y = s.place y :=
      place_takeOne_of_ne (by rw [hhead]; simpa using hy.symm)
    exact ⟨congrArg Place.row hplace, congrArg Place.due hplace⟩
  · obtain ⟨htaken, hrow, hdue⟩ := takeOne_of_pop hhead (.delivered hr hm hc)
    have hcount := Message.Retold.toNat_add_one_of_lt hc
    exact ⟨⟨_, htaken, hrow, hdue, Row.decode_delivered hm now⟩, hcount⟩

end Space

namespace Store

variable {k : Keys}

/-- A take after any run, rows of any bytes put in it included. If no id is ready the store stays
as it is. Otherwise the first ready id is popped, what comes of it is known from its row, nothing
else of the queue and no other queue is touched, and the two pending indexes still agree. The
retry falls due after as many whole milliseconds, cut to 64 bits before they are added and after. -/
theorem take_any_rows (ops : List (Keys × StoreOp)) (retry : Duration) (cap : UInt64) (now : Time) :
    let s := empty.runAll ops
    let r := s.takeOne k retry cap now
    let due := Score.addMillis now.millis retry
    (match (s.space k).ready with
      | [] => r = (.empty, s)
      | x :: rest =>
        (s.space k).TakesHead x rest retry cap now (r.1, r.2.space k) ∧
        (∀ k' : Keys, k.data ≠ k'.data → r.2.space k' = s.space k')) ∧
    (r.2.space k).Indexed ∧
    due = min (now.millis + min (retry.millis : Int) 9223372036854775807) 9223372036854775807 ∧
    Score.Representable now.millis ∧ Score.Representable due ∧
    (0 ≤ now.millis ∨ (retry.millis : Int) ≤ 9223372036854775807 →
      due = min (now.millis + retry.millis) 9223372036854775807) := by
  intro s r due
  have hfst : r.1 = ((s.space k).takeOne retry cap now).1 := takeOne_fst retry cap now
  have hsnd : r.2.space k = ((s.space k).takeOne retry cap now).2 := space_takeOne retry cap now
  have hindexed : (r.2.space k).Indexed := hsnd ▸ (indexed_runAll k ops).takeOne retry cap now
  refine ⟨?_, hindexed, rfl, Score.representable_millis now,
    Score.representable_addMillis (Score.representable_millis now), Score.addMillis_eq_min⟩
  split
  · next h => exact onSpace_of_unchanged (Space.takeOne_of_nil h)
  · next x rest h =>
    refine ⟨?_, fun k' hk => space_apply_of_ne hk (.take retry cap now)⟩
    rw [hfst, hsnd]
    exact Space.takesHead_takeOne h

/-- The row of the first of two messages is written over with a byte that no row begins with. -/
def brokenRun : List (Keys × StoreOp) :=
  [(.ofName "q", .produce ⟨"a", [1], .epoch, none, none, 0⟩ .epoch),
    (.ofName "q", .produce ⟨"b", [2], .epoch, none, none, 0⟩ .epoch),
    (.ofName "q", .putRow "a" [255])]

/-- It is handed out and retried although no delivery is allowed. -/
theorem take_any_rows_broken :
    let r := (empty.runAll brokenRun).takeOne (.ofName "q") (.ofMillis 5) 0 .epoch
    let sp := r.2.space (.ofName "q")
    r.1 = .taken [255] ∧ sp.row? "a" = some [255] ∧ sp.score? "a" = some 5 ∧ sp.ready = ["b"] ∧
      sp.score? "b" = none := by
  obtain ⟨htake, -⟩ := take_any_rows (k := .ofName "q") brokenRun (.ofMillis 5) 0 .epoch
  have hready : ((empty.runAll brokenRun).space (.ofName "q")).ready = ["a", "b"] := by
    decide +kernel
  have hrow : ((empty.runAll brokenRun).space (.ofName "q")).row? "a" = some [255] := by
    decide +kernel
  have hb : ((empty.runAll brokenRun).space (.ofName "q")).score? "b" = none := by decide +kernel
  have hnone : (Row.decode [255]).toOption = none := by decide +kernel
  obtain ⟨f, hf⟩ : ∃ f, Row.decode [255] = .error f := by
    cases h : Row.decode [255] with
    | error f => exact ⟨f, rfl⟩
    | ok m => rw [h] at hnone; cases hnone
  simp only [hready] at htake
  obtain ⟨htaken, hrow', hdue⟩ := htake.1.unreadable _ _ hrow hf
  exact ⟨htaken, hrow', hdue, htake.1.ready, (htake.1.others "b" (by decide)).2.trans hb⟩

/-- One millisecond before 1970, a span of 2^63 milliseconds leads to the highest score, and is cut
to end one millisecond before it. -/
theorem due_before_sum :
    ¬ ∀ (ops : List (Keys × StoreOp)) (k : Keys) (retry : Duration) (cap : UInt64) (now : Time)
      (x : String) (rest : List String) (row : Bytes) (m : Message),
      ((empty.runAll ops).space k).ready = x :: rest →
      ((empty.runAll ops).space k).row? x = some row → Row.decode row = .ok m →
      m.deliveries < cap →
      (((empty.runAll ops).takeOne k retry cap now).2.space k).score? x =
        some (min (now.millis + retry.millis) 9223372036854775807) := by
  intro hall
  let m : Message := ⟨"a", [120], .epoch, none, none, 0⟩
  have hdue := hall [(.ofName "q", .produce m .epoch)] (.ofName "q") (.ofMillis 9223372036854775808)
    4 ⟨-1000000, false, by decide, by decide, by decide⟩ "a" [] _ _ (by decide +kernel)
    (by decide +kernel) (Row.decode_encode m) (by decide)
  revert hdue
  decide +kernel

end Store

end DelayedQueue
