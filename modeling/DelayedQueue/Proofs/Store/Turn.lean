import DelayedQueue.Proofs.Store.Removal
import DelayedQueue.Proofs.Store.SingleIndex

/-! # The turn of a message

No stored message is stuck. Once its due time has come a promotion that has room for all pending
ids leaves it in the ready list, and from there takes pop one id each from the front, whatever they
find of it: a row, a row that cannot be read, no row, or deliveries that are used up. So the take
that pops a message is known beforehand, and it hands the message out or finds it exhausted.
-/

namespace DelayedQueue

open Std (ExtTreeMap ExtTreeSet)

def StoreOp.isTake : StoreOp → Bool
  | .take .. => true
  | _ => false

theorem StoreOp.isTake_iff {op : StoreOp} :
    op.isTake = true ↔ ∃ retry cap now, op = .take retry cap now := by
  cases op <;> simp [StoreOp.isTake]

namespace Space

variable {s s' : Space} {x : String} {retry : Duration} {cap : UInt64} {now : Time} {limit : Nat}
  {row : Bytes} {takes : List StoreOp} {i j : Nat}

section Promotion

theorem mem_dueEntries_iff (h : s.Indexed) (hl : s.pending.size ≤ limit) {t : Score} :
    (t, x) ∈ s.dueEntries now limit ↔ s.score? x = some t ∧ t ≤ now.millis := by
  have hlen : (s.schedule.toList.filter fun e => e.1 ≤ now.millis).length ≤ limit :=
    calc (s.schedule.toList.filter fun e => e.1 ≤ now.millis).length
      _ ≤ s.schedule.toList.length := List.length_filter_le _ _
      _ = (s.pending.toList.map Prod.swap).length := h.perm.length_eq.symm
      _ = s.pending.size := by rw [List.length_map, ExtTreeMap.length_toList]
      _ ≤ limit := hl
  unfold dueEntries
  rw [schedule_takeWhile, List.take_of_length_le hlen, List.mem_filter, ExtTreeSet.mem_toList,
    h t x, decide_eq_true_iff]

theorem mem_ready_promoteDue (h : s.Indexed) (hs : (s.place x).Sound) (hr : s.row? x ≠ none)
    (hd : ∀ t, s.score? x = some t → t ≤ now.millis) (hl : s.pending.size ≤ limit) :
    x ∈ (s.promoteDue now limit).2.ready := by
  rw [ready_promoteDue]
  rcases hs.covered hr with hc | hp
  · exact List.mem_append_left _ (copies_ne_zero.mp hc)
  · obtain ⟨t, ht⟩ := Option.ne_none_iff_exists'.mp hp
    have hm := (mem_dueEntries_iff h hl).mpr ⟨ht, hd t ht⟩
    exact List.mem_append_right _ (List.mem_map_of_mem hm)

theorem placed_promoteDue (h : s.Indexed) (hs : ∀ y, (s.place y).Sound) :
    (s.promoteDue now limit).2.Placed := by
  refine placed_of_sound (h.apply (.promote now limit)) fun y => ?_
  have hpromote : ((s.apply (.promote now limit)).2.place y).Sound :=
    sound_apply h (hs y) (by simp [StoreOp.produced]) (by simp)
  exact hpromote

end Promotion

section Takes

/-- A take that pops a stored id hands out its row, or finds its deliveries used up. -/
theorem Pop.of_row {p p' : Place} {t : Take} (h : Pop x retry cap now p t p')
    (hr : p.row = some row) :
    (∃ row', t = .taken row' ∧ p'.row = some row' ∧
      (∀ f, Row.decode row = .error f → row' = row) ∧
      ∀ m, Row.decode row = .ok m → m.deliveries < cap ∧ row' = Row.encode
        { m with deliveries := m.deliveries + 1, redeliverAt := some now }) ∨
    ∃ m, Row.decode row = .ok m ∧ cap ≤ m.deliveries ∧ t = .exhausted x m.deliveries := by
  cases h with
  | dangling h =>
    rw [h] at hr
    cases hr
  | unreadable h hf =>
    rw [h, Option.some.injEq] at hr
    subst hr
    exact .inl ⟨_, rfl, rfl, fun _ _ => rfl, fun m hm => by rw [hf] at hm; cases hm⟩
  | exhausted h hm hle =>
    rw [h, Option.some.injEq] at hr
    subst hr
    exact .inr ⟨_, hm, hle, rfl⟩
  | delivered h hm hlt =>
    rw [h, Option.some.injEq] at hr
    subst hr
    refine .inl ⟨_, rfl, rfl, ?_, ?_⟩
    · intro f hf
      rw [hm] at hf
      cases hf
    · intro m' hm'
      rw [hm] at hm'
      cases hm'
      exact ⟨hlt, rfl⟩

theorem ready_takeOne : (s.takeOne retry cap now).2.ready = s.ready.tail := by
  unfold takeOne
  split
  · next h => rw [h]; rfl
  · next id ready h =>
    rw [h]
    simp only
    split
    · exact ready_disarm
    · split
      · exact ready_arm
      · split
        · exact ready_disarm
        · exact ready_arm

theorem ready_run_takes (ht : ∀ op ∈ takes, op.isTake = true) :
    (s.run takes).ready = s.ready.drop takes.length := by
  induction takes generalizing s with
  | nil => rfl
  | cons op takes ih =>
    obtain ⟨retry, cap, now, rfl⟩ := StoreOp.isTake_iff.mp (ht op List.mem_cons_self)
    refine (ih fun o ho => ht o (List.mem_cons_of_mem _ ho)).trans ?_
    have hr : (s.apply (.take retry cap now)).2.ready = s.ready.tail := ready_takeOne
    rw [hr, List.drop_tail, List.length_cons]

theorem place_run_takes (ht : ∀ op ∈ takes, op.isTake = true)
    (hx : x ∉ s.ready.take takes.length) : (s.run takes).place x = s.place x := by
  induction takes generalizing s with
  | nil => rfl
  | cons op takes ih =>
    obtain ⟨retry, cap, now, rfl⟩ := StoreOp.isTake_iff.mp (ht op List.mem_cons_self)
    have hr : (s.apply (.take retry cap now)).2.ready = s.ready.tail := ready_takeOne
    have hhead : s.ready.head? ≠ some x := by
      cases hs : s.ready with
      | nil => simp
      | cons y ready => rw [hs] at hx; simp at hx ⊢; exact fun he => hx.1 he.symm
    have htail : x ∉ s.ready.tail.take takes.length := by
      cases hs : s.ready with
      | nil => simp
      | cons y ready => rw [hs] at hx; simp at hx ⊢; exact hx.2
    refine (ih (fun o ho => ht o (List.mem_cons_of_mem _ ho)) (hr ▸ htail)).trans ?_
    exact place_takeOne_of_ne hhead

theorem pops_run_takes (ht : ∀ op ∈ takes, op.isTake = true) :
    (s.run takes).pops x (.take retry cap now) = true ↔ s.ready[takes.length]? = some x := by
  simp only [pops, beq_iff_eq, ready_run_takes ht, List.head?_drop]

/-- An id that waits once, at place `i`, is popped by the take after `i` others and by no other,
from the place that it has had all along. -/
theorem pop_in_turn (hn : s.ready.Nodup) (hi : s.ready[i]? = some x)
    (ht : ∀ op ∈ takes, op.isTake = true) (hj : takes[j]? = some (.take retry cap now)) :
    ((s.run (takes.take j)).pops x (.take retry cap now) = true ↔ j = i) ∧
    (j = i → Pop x retry cap now (s.place x) ((s.run (takes.take j)).takeOne retry cap now).1
      (((s.run (takes.take j)).takeOne retry cap now).2.place x)) := by
  have hlen : (takes.take j).length = j :=
    List.length_take_of_le (Nat.le_of_lt (List.getElem?_eq_some_iff.mp hj).1)
  have ht' : ∀ op ∈ takes.take j, op.isTake = true := fun op ho => ht op (List.mem_of_mem_take ho)
  have hpops :
      (s.run (takes.take j)).pops x (.take retry cap now) = true ↔ s.ready[j]? = some x := by
    rw [pops_run_takes ht', hlen]
  obtain ⟨hlt, hx⟩ := List.getElem?_eq_some_iff.mp hi
  constructor
  · rw [hpops]
    constructor
    · intro h
      obtain ⟨hlt', hx'⟩ := List.getElem?_eq_some_iff.mp h
      exact (hn.getElem_inj_iff).mp (hx'.trans hx.symm)
    · rintro rfl
      exact hi
  · rintro rfl
    have hhead : (s.run (takes.take j)).ready.head? = some x := beq_iff_eq.mp (hpops.mpr hi)
    have hbehind : x ∉ s.ready.take (takes.take j).length := by
      rw [hlen]
      intro hm
      obtain ⟨n, hn', he⟩ := List.mem_take_iff_getElem.mp hm
      have hnj : n = j := (hn.getElem_inj_iff).mp (he.trans hx.symm)
      omega
    have hpop := pop_of_head retry cap now hhead
    rwa [place_run_takes ht' hbehind] at hpop

end Takes

end Space

namespace Store

variable {k : Keys} {x : String}

/-- Take any run in which each message has an id of its own, and a message that is stored after it
and has fallen due if it is pending. A promotion with room for all pending ids leaves the message
in the ready list, and of the takes made next exactly one pops it, the one whose number is its
place there. That take hands out the row of the message as it is stored from then on, with this
delivery counted in it unless it cannot be read; or it finds the deliveries of the message used
up. -/
theorem taken_in_turn {ops : List (Keys × StoreOp)} {row : Bytes} {p : Time} {limit : Nat}
    (hf : Fresh (opsOn k ops)) (hw : RawOverStored k (opsOn k ops))
    (hr : ((empty.runAll ops).space k).row? x = some row)
    (hd : ∀ t, ((empty.runAll ops).space k).score? x = some t → t ≤ p.millis)
    (hl : ((empty.runAll ops).space k).pending.size ≤ limit) :
    let s := ((empty.runAll ops).promoteDue k p limit).2
    ∃ i, (s.space k).ready[i]? = some x ∧
      ∀ takes : List StoreOp, (∀ op ∈ takes, op.isTake = true) →
      ∀ (j : Nat) retry cap now, takes[j]? = some (.take retry cap now) →
        let before := s.run k (takes.take j)
        let r := before.takeOne k retry cap now
        ((before.space k).pops x (.take retry cap now) = true ↔ j = i) ∧
        (j = i →
          (∃ row', r.1 = .taken row' ∧ (r.2.space k).row? x = some row' ∧
            (∀ f, Row.decode row = .error f → row' = row) ∧
            ∀ m, Row.decode row = .ok m → m.deliveries < cap ∧ row' = Row.encode
              { m with deliveries := m.deliveries + 1, redeliverAt := some now }) ∨
          ∃ m, Row.decode row = .ok m ∧ cap ≤ m.deliveries ∧
            r.1 = .exhausted x m.deliveries) := by
  intro s
  have hindexed := indexed_runAll k ops
  have hsound := sound_runAll hf hw
  have hs : s.space k = (((empty.runAll ops).space k).promoteDue p limit).2 :=
    space_apply (.promote p limit)
  have hplaced : (s.space k).Placed := hs ▸ Space.placed_promoteDue hindexed hsound
  have hrow : ((s.space k).place x).row = some row := by
    rw [hs]
    exact Space.row?_promoteDue.trans hr
  have hready : x ∈ (s.space k).ready := by
    rw [hs]
    exact Space.mem_ready_promoteDue hindexed (hsound x) (by simp [hr]) hd hl
  obtain ⟨i, hi⟩ := List.mem_iff_getElem?.mp hready
  refine ⟨i, hi, fun takes ht j retry cap now hj => ?_⟩
  obtain ⟨hpops, hpop⟩ := Space.pop_in_turn hplaced.nodup_ready hi ht hj
  intro before r
  have hbefore : before.space k = (s.space k).run (takes.take j) := space_run _
  rw [takeOne_fst, space_takeOne, hbefore]
  exact ⟨hpops, fun he => (hpop he).of_row hrow⟩

/-- A run of two queues. In the first `c` lingers without its row, the deliveries of `a` are used
up at a cap of 1, and `b` is pending. -/
def turnRun : List (Keys × StoreOp) :=
  [(.ofName "q", .produce ⟨"a", [1], .epoch, none, none, 0⟩ .epoch),
    (.ofName "other", .produce ⟨"b", [9], .epoch, none, none, 0⟩ .epoch),
    (.ofName "q", .take (.ofMillis 5) 1 .epoch),
    (.ofName "q", .produce ⟨"c", [], .epoch, none, none, 0⟩ .epoch), (.ofName "q", .commit "c"),
    (.ofName "q", .produce ⟨"b", [2], .epoch, some .latest, none, 0⟩ .epoch)]

/-- The third take after the promotion hands out `b`, behind `c`, of which no row is found, and
`a`, whose deliveries are used up. -/
theorem taken_in_turn_third :
    let s := ((empty.runAll turnRun).promoteDue (.ofName "q") .latest 2).2
    let before := s.run (.ofName "q") (List.replicate 2 (.take (.ofMillis 5) 1 .latest))
    (s.space (.ofName "q")).ready = ["c", "a", "b"] ∧
    (before.space (.ofName "q")).pops "b" (.take (.ofMillis 5) 1 .latest) = true ∧
    ∃ row', (before.takeOne (.ofName "q") (.ofMillis 5) 1 .latest).1 = .taken row' := by
  intro s before
  have hraw : ∀ op ∈ opsOn (.ofName "q") turnRun, op.isRaw = false := by decide +kernel
  have hw : RawOverStored (.ofName "q") (opsOn (.ofName "q") turnRun) :=
    fun n x row h => by simpa [StoreOp.isRaw] using hraw _ (List.mem_of_getElem? h)
  have hready : (s.space (.ofName "q")).ready = ["c", "a", "b"] := by decide +kernel
  obtain ⟨i, hi, htakes⟩ := @taken_in_turn (.ofName "q") "b" turnRun
    (Row.encode ⟨"b", [2], .epoch, some .latest, none, 0⟩) .latest 2
    (by unfold Fresh; decide +kernel) hw (by decide +kernel) (by decide +kernel)
    (by decide +kernel)
  obtain rfl : i = 2 := by
    rw [hready] at hi
    rcases i with _ | _ | _ | i
    · simp at hi
    · simp at hi
    · rfl
    · simp at hi
  have h := htakes (List.replicate 3 (.take (.ofMillis 5) 1 .latest)) (by decide) 2 _ _ _ rfl
  obtain ⟨row', ht, -⟩ | ⟨m, hm, hle, -⟩ := h.2 rfl
  · exact ⟨hready, h.1.mpr rfl, row', ht⟩
  · rw [Row.decode_encode] at hm
    cases hm
    exact absurd hle (by decide)

end Store

end DelayedQueue
