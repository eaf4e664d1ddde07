import DelayedQueue.Proofs.Message.RoundTrip
import DelayedQueue.Proofs.Store.Independence

/-! # Rescheduling any id

An id may wait in the ready list, more than once and also while it is pending, and its row may be
any bytes. A reschedule gives it the one due time, takes it out of the ready list and touches no
other id. What an earlier reschedule made of it cannot be told afterwards: the row that a reschedule
writes does not depend on the delivery time it finds, and the other times are whole since the row
was read.
-/

namespace DelayedQueue

namespace Space

variable {s : Space} {x : String} {t a : Time} {row : Bytes} {m : Message} {f : Row.Fault}

section Rows

theorem rescheduledRow_of_error (h : Row.decode row = .error f) : rescheduledRow row t = row := by
  simp only [rescheduledRow, h]

theorem rescheduledRow_of_ok (h : Row.decode row = .ok m) :
    rescheduledRow row t = Row.encode { m with deliverAt := some t } := by
  simp only [rescheduledRow, h]

theorem decode_rescheduledRow (h : Row.decode row = .ok m) (t : Time) :
    Row.decode (rescheduledRow row t) = .ok { m with deliverAt := some t.floorMillis } := by
  have hm := Row.floorMillis_of_decode h
  have hcreate : m.createAt.floorMillis = m.createAt := congrArg Message.createAt hm
  have hredeliver : m.redeliverAt.map Time.floorMillis = m.redeliverAt :=
    congrArg Message.redeliverAt hm
  rw [rescheduledRow_of_ok h, Row.decode_encode]
  simp only [Message.floorMillis, hcreate, hredeliver, Option.map_some]

theorem rescheduledRow_rescheduledRow :
    rescheduledRow (rescheduledRow row a) t = rescheduledRow row t := by
  cases h : Row.decode row with
  | error f => rw [rescheduledRow_of_error h]
  | ok m => rw [rescheduledRow_of_ok (decode_rescheduledRow h a), rescheduledRow_of_ok h]

end Rows

/-- What a reschedule answers about a space in which `x` has a row, and what it leaves of it. -/
structure Reschedules (s : Space) (x : String) (row : Bytes) (t : Time) (r : Bool × Space) :
    Prop where
  found : r.1 = true
  /-- The others keep their order. -/
  ready : r.2.ready = s.ready.filter (· != x)
  waits : x ∉ r.2.ready ∧ r.2.score? x = some t.millis
  /-- The other index has no other entry of `x` either. -/
  once : ∀ u, (u, x) ∈ r.2.schedule ↔ u = t.millis
  others : ∀ y, y ≠ x → r.2.row? y = s.row? y ∧ r.2.score? y = s.score? y ∧
    ∀ u, (u, y) ∈ r.2.schedule ↔ (u, y) ∈ s.schedule
  unreadable : ∀ f, Row.decode row = .error f → r.2.row? x = some row
  told : ∀ m, Row.decode row = .ok m → ∃ row', r.2.row? x = some row' ∧
    Row.decode row' = .ok { m with deliverAt := some t.floorMillis }

theorem reschedules_reschedule (hi : s.Indexed) (h : s.row? x = some row) :
    s.Reschedules x row t (s.reschedule x t) := by
  have hplace : (s.reschedule x t).2.place x = _ := place_reschedule_self h
  have hrow : (s.reschedule x t).2.row? x = some (rescheduledRow row t) :=
    congrArg Place.row hplace
  have hdue : (s.reschedule x t).2.score? x = some t.millis := congrArg Place.due hplace
  have hi' := hi.reschedule x t
  have hready : (s.reschedule x t).2.ready = s.ready.filter (· != x) := by
    rw [reschedule_of_some h]
    exact ready_arm
  refine ⟨by rw [reschedule_of_some h], hready, ⟨by simp [hready], hdue⟩, fun u => ?_,
    fun y hy => ?_, fun f hf => ?_, fun m hm => ⟨_, hrow, decode_rescheduledRow hm t⟩⟩
  · rw [hi' u x, hdue, Option.some.injEq, eq_comm]
  · have hy' : (s.reschedule x t).2.place y = s.place y := place_reschedule_of_ne hy.symm
    have hscore : (s.reschedule x t).2.score? y = s.score? y := congrArg Place.due hy'
    exact ⟨congrArg Place.row hy', hscore, fun u => by rw [hi' u y, hi u y, hscore]⟩
  · rw [hrow, rescheduledRow_of_error hf]

theorem reschedule_reschedule (hi : s.Indexed) :
    (s.reschedule x a).2.reschedule x t = s.reschedule x t := by
  cases h : s.row? x with
  | none => rw [reschedule_of_none h]
  | some row =>
    have ha := reschedules_reschedule (t := a) hi h
    have ht := reschedules_reschedule (t := t) hi h
    have hrow : (s.reschedule x a).2.row? x = some (rescheduledRow row a) :=
      congrArg Place.row (place_reschedule_self h)
    have hboth := reschedules_reschedule (t := t) (hi.reschedule x a) hrow
    refine Prod.ext (hboth.found.trans ht.found.symm) ?_
    refine ext_of_place ((hi.reschedule x a).reschedule x t) (hi.reschedule x t) ?_ fun y => ?_
    · rw [hboth.ready, ha.ready, ht.ready, List.filter_filter]
      simp only [Bool.and_self]
    · by_cases hy : x = y
      · subst hy
        rw [place_reschedule_self hrow, place_reschedule_self h, rescheduledRow_rescheduledRow]
      · rw [place_reschedule_of_ne hy, place_reschedule_of_ne hy, place_reschedule_of_ne hy]

end Space

namespace Store

variable {s : Store} {k : Keys} {x : String} {t : Time}

theorem reschedule_reschedule (hi : (s.space k).Indexed) (a : Time) :
    (s.reschedule k x a).2.reschedule k x t = s.reschedule k x t := by
  have hspace : (s.reschedule k x a).2.space k = ((s.space k).reschedule x a).2 :=
    space_apply (.reschedule x a)
  have hboth : (((s.space k).reschedule x a).2.reschedule x t) = (s.space k).reschedule x t :=
    Space.reschedule_reschedule hi
  refine Prod.ext ?_ ?_
  · refine (onSpace_fst _).trans (Eq.trans ?_ (onSpace_fst _).symm)
    rw [hspace, hboth]
  · have hone : (s.apply k (.reschedule x t)).2 = _ := apply_snd nofun
    have htwo : ((s.reschedule k x a).2.reschedule k x t).2 = _ :=
      apply_apply_snd (X := .reschedule x a) (Y := .reschedule x t) nofun nofun
    refine htwo.trans (Eq.trans ?_ hone.symm)
    simp only [Space.apply, hboth, StoreOp.makesSpace, Bool.or_false]

theorem indexed_reschedule (hi : (s.space k).Indexed) (a : Time) :
    ((s.reschedule k x a).2.space k).Indexed := by
  have hspace : (s.reschedule k x a).2.space k = ((s.space k).reschedule x a).2 :=
    space_apply (.reschedule x a)
  exact hspace ▸ hi.reschedule x a

theorem run_reschedules (hi : (s.space k).Indexed) (times : List Time) :
    s.run k ((times ++ [t]).map (.reschedule x)) = (s.reschedule k x t).2 := by
  induction times generalizing s with
  | nil => rfl
  | cons a times ih =>
    have h := ih (indexed_reschedule (x := x) hi a)
    rw [reschedule_reschedule hi a] at h
    exact h

/-- A reschedule after any run, rows of any bytes and repeated ids included. Without a row the
answer is no and the store stays as it is. With one it is yes: the id leaves the ready list for one
due time, no other id and no other queue is touched, and of the row the delivery time alone is
replaced if it can be read, and nothing if not. Whatever reschedules of the id come before, the last
one is answered and leaves the store as if it were the only one. -/
theorem reschedule_any (ops : List (Keys × StoreOp)) (k : Keys) (x : String) (t : Time) :
    let s := empty.runAll ops
    let r := s.reschedule k x t
    ((s.space k).row? x = none → r = (false, s)) ∧
    (∀ row, (s.space k).row? x = some row →
      (s.space k).Reschedules x row t (r.1, r.2.space k)) ∧
    (∀ k' : Keys, k.data ≠ k'.data → r.2.space k' = s.space k') ∧
    (∀ a, (s.reschedule k x a).2.reschedule k x t = r) ∧
    ∀ times, s.run k ((times ++ [t]).map (.reschedule x)) = r.2 := by
  intro s r
  have hi : (s.space k).Indexed := indexed_runAll k ops
  have hfst : r.1 = ((s.space k).reschedule x t).1 := onSpace_fst _
  have hsnd : r.2.space k = ((s.space k).reschedule x t).2 := space_apply (.reschedule x t)
  refine ⟨fun h => onSpace_of_unchanged (Space.reschedule_of_none h), fun row h => ?_,
    fun k' hk => space_apply_of_ne hk (.reschedule x t), reschedule_reschedule hi,
    run_reschedules hi⟩
  rw [hfst, hsnd]
  exact Space.reschedules_reschedule hi h

/-- Of "a" there are two ready entries and a pending one, "b" is ready between them, and the row
of "c" begins with a byte that no row begins with. -/
def repeatedRun : List (Keys × StoreOp) :=
  [(.ofName "q", .produce ⟨"a", [1], .epoch, none, none, 0⟩ .epoch),
    (.ofName "q", .produce ⟨"b", [2], .epoch, none, none, 0⟩ .epoch),
    (.ofName "q", .produce ⟨"a", [3], .epoch, none, none, 0⟩ .epoch),
    (.ofName "q", .produce ⟨"a", [4], .epoch, some .latest, none, 0⟩ .epoch),
    (.ofName "q", .putRow "c" [255])]

theorem reschedule_any_repeated :
    let s := empty.runAll repeatedRun
    let a := s.reschedule (.ofName "q") "a" .epoch
    let c := s.reschedule (.ofName "q") "c" .epoch
    (s.space (.ofName "q")).ready = ["a", "b", "a"] ∧ a.1 = true ∧
    (a.2.space (.ofName "q")).ready = ["b"] ∧ (a.2.space (.ofName "q")).score? "a" = some 0 ∧
    (∃ row, (a.2.space (.ofName "q")).row? "a" = some row ∧
      Row.decode row = .ok ⟨"a", [4], .epoch, some .epoch, none, 0⟩) ∧
    c.1 = true ∧ (c.2.space (.ofName "q")).row? "c" = some [255] ∧
    (c.2.space (.ofName "q")).score? "c" = some 0 ∧
    s.reschedule (.ofName "q") "d" .epoch = (false, s) ∧
    s.run (.ofName "q") [.reschedule "a" .latest, .reschedule "a" .epoch] = a.2 := by
  intro s a c
  let m : Message := ⟨"a", [4], .epoch, some .latest, none, 0⟩
  have hready : (s.space (.ofName "q")).ready = ["a", "b", "a"] := by decide +kernel
  have hrowA : (s.space (.ofName "q")).row? "a" = some (Row.encode m) := by decide +kernel
  have hrowC : (s.space (.ofName "q")).row? "c" = some [255] := by decide +kernel
  have hrowD : (s.space (.ofName "q")).row? "d" = none := by decide +kernel
  obtain ⟨f, hf⟩ : ∃ f, Row.decode [255] = .error f := Row.exists_error (by decide +kernel)
  obtain ⟨-, hA, -, -, hlast⟩ := reschedule_any repeatedRun (.ofName "q") "a" .epoch
  obtain ⟨-, hC, -⟩ := reschedule_any repeatedRun (.ofName "q") "c" .epoch
  obtain ⟨hD, -⟩ := reschedule_any repeatedRun (.ofName "q") "d" .epoch
  have hmoved := hA _ hrowA
  have hkept := hC _ hrowC
  refine ⟨hready, hmoved.found, ?_, hmoved.waits.2, ?_, hkept.found, hkept.unreadable f hf,
    hkept.waits.2, hD hrowD, hlast [.latest]⟩
  · refine hmoved.ready.trans ?_
    rw [hready]
    decide
  · obtain ⟨row, hrow, hdecode⟩ := hmoved.told m.floorMillis (Row.decode_encode m)
    refine ⟨row, hrow, hdecode.trans (congrArg Except.ok ?_)⟩
    decide

end Store

end DelayedQueue
