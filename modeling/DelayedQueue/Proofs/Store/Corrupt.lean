import DelayedQueue.Proofs.Store.Removal

/-! # Rows that cannot be read

Whatever moves an id with such a row leaves the row as it is: there is no message in it to be
counted, stamped or given another time. So the id has no last delivery, and goes back and forth
between the ready list and the pending set until it is committed, purged or written anew.
-/

namespace DelayedQueue

/-- The operation leaves it to takes, promotions and reschedules to move `x`. -/
def StoreOp.Spares (x : String) : StoreOp → Prop
  | .take .. | .reschedule .. | .promote .. => True
  | .produce m _ => m.id ≠ x
  | .commit id => id ≠ x
  | .putRow id _ => id ≠ x
  | .purge => False

namespace Space

variable {s : Space} {x : String} {row : Bytes} {f : Row.Fault} {op : StoreOp} {retry : Duration}
  {cap : UInt64} {now : Time}

/-- The row of `x` cannot be read, and `x` waits once, in the ready list or pending. -/
structure Corrupt (s : Space) (x : String) (row : Bytes) : Prop where
  stored : s.row? x = some row
  unread : ∃ f, Row.decode row = .error f
  once : s.ready.count x ≤ 1
  waits : Xor (x ∈ s.ready) (s.score? x ≠ none)

theorem Corrupt.of_place (hf : Row.decode row = .error f)
    (h : s.place x = ⟨1, none, some row⟩ ∨ ∃ t, s.place x = ⟨0, some t, some row⟩) :
    s.Corrupt x row := by
  rcases h with h | ⟨t, h⟩
  · have hcount : s.ready.count x = 1 := congrArg Place.copies h
    have hscore : s.score? x = none := congrArg Place.due h
    have hready : x ∈ s.ready := List.one_le_count_iff.mp (Nat.le_of_eq hcount.symm)
    exact ⟨congrArg Place.row h, ⟨f, hf⟩, Nat.le_of_eq hcount, .inl ⟨hready, not_not_intro hscore⟩⟩
  · have hcount : s.ready.count x = 0 := congrArg Place.copies h
    have hscore : s.score? x = some t := congrArg Place.due h
    have hready : x ∉ s.ready := List.count_eq_zero.mp hcount
    refine ⟨congrArg Place.row h, ⟨f, hf⟩, hcount ▸ Nat.zero_le 1, .inr ⟨?_, hready⟩⟩
    rw [hscore]
    exact Option.some_ne_none t

theorem Corrupt.place_cases (h : s.Corrupt x row) :
    s.place x = ⟨1, none, some row⟩ ∨ ∃ t, s.place x = ⟨0, some t, some row⟩ := by
  rcases h.waits with ⟨hready, hscore⟩ | ⟨hscore, hready⟩
  · have hcount : s.ready.count x = 1 :=
      Nat.le_antisymm h.once (List.one_le_count_iff.mpr hready)
    exact .inl (Place.ext hcount (not_not.mp hscore) h.stored)
  · obtain ⟨t, ht⟩ := Option.ne_none_iff_exists'.mp hscore
    exact .inr ⟨t, Place.ext (List.count_eq_zero.mpr hready) ht h.stored⟩

theorem Corrupt.pop {k : Take} {p : Place} (h : s.Corrupt x row)
    (hp : Pop x retry cap now (s.place x) k p) :
    k = .taken row ∧ p = ⟨0, some (Score.addMillis now.millis retry), some row⟩ := by
  obtain ⟨f, hf⟩ := h.unread
  have hcopies : (s.place x).copies - 1 = 0 := Nat.sub_eq_zero_of_le h.once
  have hrow : (s.place x).row = some row := h.stored
  cases hp with
  | dangling hr =>
    rw [hrow] at hr
    cases hr
  | unreadable hr =>
    rw [hrow] at hr
    cases hr
    exact ⟨rfl, by rw [hcopies]⟩
  | exhausted hr hm | delivered hr hm =>
    rw [hrow] at hr
    cases hr
    rw [hf] at hm
    cases hm

theorem Corrupt.apply (h : s.Corrupt x row) (hi : s.Indexed) (ho : op.Spares x) :
    (s.apply op).2.Corrupt x row := by
  obtain ⟨f, hf⟩ := h.unread
  refine .of_place hf ?_
  have hp := effect_apply hi x op
  generalize (s.apply op).2.place x = p at hp ⊢
  cases hp with
  | spared => exact h.place_cases
  | readied hm | delayed hm => exact absurd hm ho
  | popped _ hp => exact .inr ⟨_, (h.pop hp).2⟩
  | committed | overwritten => exact absurd rfl ho
  | @rescheduled t row' hr =>
    obtain rfl : row = row' := Option.some.inj (h.stored.symm.trans hr)
    refine .inr ⟨t.millis, ?_⟩
    simp only [rescheduledRow, hf]
  | promoted hd =>
    rcases h.place_cases with h | ⟨t, h⟩
    · rw [h] at hd
      cases hd
    · exact .inl (by rw [h])
  | purged => exact ho.elim

theorem Corrupt.run {ops : List StoreOp} (h : s.Corrupt x row) (hi : s.Indexed)
    (ho : ∀ op ∈ ops, op.Spares x) : (s.run ops).Corrupt x row := by
  induction ops generalizing s with
  | nil => exact h
  | cons op ops ih =>
    obtain ⟨hop, hops⟩ := List.forall_mem_cons.mp ho
    exact ih (h.apply hi hop) (hi.apply op) hops

theorem Corrupt.not_exhausted (h : s.Corrupt x row) (n : UInt64) :
    (s.takeOne retry cap now).1 ≠ .exhausted x n := by
  intro hx
  have hh := head_of_exhausted hx
  have hk := (h.pop (pop_of_head retry cap now hh)).1
  rw [hx] at hk
  cases hk

end Space

namespace Store

variable {s : Store} {k : Keys} {x : String} {row : Bytes}

/-- The row of `x` cannot be read. A take that pops `x` gives the row back and arms `x` again, and
none finds its deliveries used up. -/
structure Retains (s : Store) (k : Keys) (x : String) (row : Bytes) : Prop where
  corrupt : (s.space k).Corrupt x row
  popped : ∀ retry cap now, (s.space k).ready.head? = some x →
    let r := s.takeOne k retry cap now
    r.1 = .taken row ∧ (r.2.space k).Corrupt x row ∧
      (r.2.space k).score? x = some (Score.addMillis now.millis retry)
  counted : ∀ retry cap now n, (s.takeOne k retry cap now).1 ≠ .exhausted x n

theorem retains_of_corrupt (hi : (s.space k).Indexed) (h : (s.space k).Corrupt x row) :
    s.Retains k x row := by
  refine ⟨h, fun retry cap now hh => ?_, fun retry cap now n => ?_⟩
  · obtain ⟨htaken, hplace⟩ := h.pop (Space.pop_of_head retry cap now hh)
    intro r
    rw [takeOne_fst, space_takeOne]
    have hspares : (StoreOp.take retry cap now).Spares x := trivial
    exact ⟨htaken, h.apply hi hspares, congrArg Place.due hplace⟩
  · rw [takeOne_fst]
    exact h.not_exhausted n

theorem retains_runAll {ops : List (Keys × StoreOp)} (hi : (s.space k).Indexed)
    (h : (s.space k).Corrupt x row) (ho : ∀ op ∈ opsOn k ops, op.Spares x) :
    (s.runAll ops).Retains k x row := by
  refine retains_of_corrupt ?_ ?_
  · rw [space_runAll]
    exact hi.run _
  · rw [space_runAll]
    exact h.run hi ho

end Store

end DelayedQueue
