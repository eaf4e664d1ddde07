import DelayedQueue.Proofs.Store.Deliveries

/-! # What has been removed

An id loses its row by a commit, by a purge, or when a take finds its deliveries used up. From
then on it can at most linger in the ready list, from where one take drops it. Nothing but a
production of the id or a raw row under it brings it back: it is not set anew, not promoted and
not handed out.
-/

namespace DelayedQueue

open Std (ExtTreeMap)

/-- An id that is not stored and will not fall due. It may wait in the ready list. -/
def Place.Gone (p : Place) : Prop := p.due = none ∧ p.row = none

/-- The operation puts no row under `x`. -/
def StoreOp.LeavesOut (x : String) (op : StoreOp) : Prop :=
  x ∉ op.produced ∧ ∀ row, op ≠ .putRow x row

namespace Space

variable {s : Space} {x : String} {op : StoreOp} {retry : Duration} {cap : UInt64} {now : Time}

/-- Whether an operation is a take that pops `x`. -/
def pops (s : Space) (x : String) : StoreOp → Bool
  | .take .. => s.ready.head? == some x
  | _ => false

/-- How often `x` is popped. -/
def popCount (x : String) (h : List (Space × StoreOp)) : Nat := h.countP fun e => e.1.pops x e.2

/-- An operation after which `x` is not stored. -/
inductive Removes (s : Space) (x : String) : StoreOp → Prop

  | committed : Removes s x (.commit x)

  | exhausted {retry : Duration} {cap n : UInt64} {now : Time} :
      (s.takeOne retry cap now).1 = .exhausted x n → Removes s x (.take retry cap now)

  | purged : Removes s x .purge

theorem pops_eq_true_iff : s.pops x op = true ↔ ∃ retry cap now, op = .take retry cap now ∧
    s.ready.head? = some x := by
  cases op <;> simp [pops]

section Step

theorem head_of_exhausted {n : UInt64} (h : (s.takeOne retry cap now).1 = .exhausted x n) :
    s.ready.head? = some x := by
  cases hs : s.ready with
  | nil => rw [takeOne_of_nil hs] at h; cases h
  | cons y rest =>
    have hh : s.ready.head? = some y := by rw [hs]; rfl
    have hp := pop_of_head retry cap now hh
    rw [h] at hp
    generalize (s.takeOne retry cap now).2.place y = p at hp
    cases hp
    rfl

/-- What is removed is gone, and it lingers in the ready list at most where it was. -/
theorem gone_of_removes (h : s.Removes x op) :
    ((s.apply op).2.place x).Gone ∧ ((s.apply op).2.place x).copies ≤ (s.place x).copies := by
  cases h with
  | committed =>
    change ((s.commit x).2.place x).Gone ∧ ((s.commit x).2.place x).copies ≤ _
    rw [place_commit_self]
    exact ⟨⟨rfl, rfl⟩, Nat.le_refl _⟩
  | @exhausted retry cap n now ht =>
    have hp := pop_of_head retry cap now (head_of_exhausted ht)
    rw [ht] at hp
    change ((s.takeOne retry cap now).2.place x).Gone ∧
      ((s.takeOne retry cap now).2.place x).copies ≤ _
    generalize (s.takeOne retry cap now).2.place x = p at hp
    cases hp
    exact ⟨⟨rfl, rfl⟩, Nat.sub_le _ _⟩
  | purged =>
    change (empty.place x).Gone ∧ (empty.place x).copies ≤ _
    rw [place_empty]
    exact ⟨⟨rfl, rfl⟩, Nat.zero_le _⟩

theorem gone_apply (hi : s.Indexed) (hg : (s.place x).Gone) (ho : op.LeavesOut x) :
    ((s.apply op).2.place x).Gone ∧
      (if s.pops x op then 1 else 0) + ((s.apply op).2.place x).copies ≤ (s.place x).copies := by
  obtain ⟨hd, hr⟩ := hg
  have hp := effect_apply hi x op
  generalize (s.apply op).2.place x = p at hp ⊢
  cases hp with
  | spared h =>
    have hn : s.pops x op = false := by
      rw [Bool.eq_false_iff, ne_eq, pops_eq_true_iff]
      rintro ⟨retry, cap, now, rfl, hh⟩
      exact h hh
    rw [hn]
    exact ⟨⟨hd, hr⟩, by simp⟩
  | readied h | delayed h => exact absurd (by simp [StoreOp.produced, h]) ho.1
  | @popped retry cap now p hh hp =>
    have hc : (s.place x).copies ≠ 0 := copies_ne_zero.mpr (List.mem_of_mem_head? hh)
    have hpop : s.pops x (.take retry cap now) = true :=
      pops_eq_true_iff.mpr ⟨retry, cap, now, rfl, hh⟩
    generalize (s.takeOne retry cap now).1 = k at hp
    cases hp with
    | dangling => exact ⟨⟨rfl, rfl⟩, by simp only [hpop, if_true]; omega⟩
    | unreadable hs | exhausted hs | delivered hs => rw [hr] at hs; cases hs
  | committed => exact ⟨⟨rfl, rfl⟩, by simp [pops]⟩
  | rescheduled hs => rw [hr] at hs; cases hs
  | promoted hs => rw [hd] at hs; cases hs
  | purged => exact ⟨⟨rfl, rfl⟩, by simp [pops, Place.vacant]⟩
  | overwritten => exact absurd rfl (ho.2 _)

theorem popCount_concat {h : List (Space × StoreOp)} : popCount x (h ++ [(s, op)]) =
    popCount x h + if s.pops x op then 1 else 0 := by
  simp only [popCount, List.countP_append, List.countP_singleton]

theorem gone_run {ops : List StoreOp} (hi : s.Indexed) (hg : (s.place x).Gone)
    (ho : ∀ op ∈ ops, op.LeavesOut x) : ((s.run ops).place x).Gone ∧
      popCount x (s.history ops) + ((s.run ops).place x).copies ≤ (s.place x).copies := by
  induction ops using List.reverseRecOn with
  | nil => exact ⟨hg, by simp [popCount, history]⟩
  | append_singleton ops op ih =>
    obtain ⟨hg', hc⟩ := ih fun o h => ho o (List.mem_append_left _ h)
    obtain ⟨hg'', hc'⟩ := gone_apply (hi.run ops) hg' (ho op (by simp))
    rw [run_concat, history_concat, popCount_concat]
    exact ⟨hg'', by omega⟩

end Step

theorem row?_apply_eq_none (hi : s.Indexed) (hr : s.row? x = none) (ho : op.LeavesOut x) :
    (s.apply op).2.row? x = none := by
  have hp := effect_apply hi x op
  generalize hq : (s.apply op).2.place x = p at hp
  refine (congrArg Place.row hq).trans ?_
  cases hp with
  | spared | promoted => exact hr
  | readied h | delayed h => exact absurd (by simp [StoreOp.produced, h]) ho.1
  | @popped retry cap now p hh hp =>
    generalize (s.takeOne retry cap now).1 = k at hp
    cases hp with
    | dangling | exhausted => rfl
    | unreadable hs | delivered hs => cases hr.symm.trans hs
  | committed | purged => rfl
  | rescheduled hs => cases hr.symm.trans hs
  | overwritten => exact absurd rfl (ho.2 _)

section Refusals

theorem takeOne_of_row?_eq_none (hr : s.row? x = none) (hh : s.ready.head? = some x) :
    (s.takeOne retry cap now).1 = .empty := by
  have hp := pop_of_head retry cap now hh
  generalize (s.takeOne retry cap now).1 = k, (s.takeOne retry cap now).2.place x = p at hp ⊢
  cases hp with
  | dangling => rfl
  | unreadable hs | exhausted hs | delivered hs => cases hr.symm.trans hs

theorem commit_of_gone (hg : (s.place x).Gone) : s.commit x = (false, s) := by
  obtain ⟨hd, hr⟩ := hg
  have hd : s.pending[x]? = none := hd
  have hr : s.rows[x]? = none := hr
  have he : s.rows.erase x = s.rows := by
    refine ExtTreeMap.ext_getElem? fun y => ?_
    rw [ExtTreeMap.getElem?_erase]
    split
    · next h => rw [← Std.LawfulEqCmp.eq_of_compare h, hr]
    · rfl
  have hc : s.rows.contains x = false := by
    rw [← ExtTreeMap.isSome_getElem?_eq_contains, hr]; rfl
  simp only [commit, disarm, hd, dropRow, he, hc]

end Refusals

end Space

namespace Store

variable {s : Store} {k : Keys} {x : String}

open Space (popCount)

theorem onSpace_of_unchanged {α : Type} {f : Space → α × Space} {a : α}
    (h : f (s.space k) = (a, s.space k)) : s.onSpace k f = (a, s) := by
  cases hs : s.spaces[k.data]? with
  | none =>
    have he : s.space k = Space.empty := by simp [space, hs]
    rw [he] at h
    simp only [onSpace, hs, h]
  | some sp =>
    have he : s.space k = sp := by simp [space, hs]
    rw [he] at h
    have hi : s.spaces.insert k.data sp = s.spaces := by
      refine ExtTreeMap.ext_getElem? fun y => ?_
      rw [ExtTreeMap.getElem?_insert]
      split
      · next hy => rw [← Std.LawfulEqCmp.eq_of_compare hy, hs]
      · rfl
    simp only [onSpace, hs, h, setSpace, hi]

theorem rawOverStored_of_unraw {ops : List StoreOp} (h : ∀ op ∈ ops, op.isRaw = false) :
    RawOverStored k ops := by
  intro n x row hn
  cases h _ (List.mem_of_getElem? hn)

/-- `x` is not stored and does not fall due, a take that pops it finds nothing, and to commit it
or to set it anew changes nothing. -/
structure Lacks (s : Store) (k : Keys) (x : String) : Prop where
  row : (s.space k).row? x = none
  due : (s.space k).score? x = none
  popped : (s.space k).ready.head? = some x → ∀ retry cap now,
    (s.apply k (.take retry cap now)).1 = .took .empty
  exhausted : ∀ retry cap now n, (s.apply k (.take retry cap now)).1 ≠ .took (.exhausted x n)
  commit : s.apply k (.commit x) = (.flag false, s)
  reschedule : ∀ t, s.apply k (.reschedule x t) = (.flag false, s)

theorem lacks_of_gone (h : ((s.space k).place x).Gone) : s.Lacks k x where
  row := h.2
  due := h.1
  popped hh retry cap now := by
    rw [apply_fst]
    exact congrArg StoreResult.took (Space.takeOne_of_row?_eq_none h.2 hh)
  exhausted retry cap now n ht := by
    rw [apply_fst] at ht
    have ht := StoreResult.took.inj ht
    rw [Space.takeOne_of_row?_eq_none h.2 (Space.head_of_exhausted ht)] at ht
    cases ht
  commit := by
    have hc : s.commit k x = (false, s) := onSpace_of_unchanged (Space.commit_of_gone h)
    simp only [apply, hc]
  reschedule t := by
    have hr : s.reschedule k x t = (false, s) :=
      onSpace_of_unchanged (Space.reschedule_of_none h.2)
    simp only [apply, hr]

/-- After an operation that removes `x`, and whatever else but for producing it or writing its row,
`x` is lacking and has been popped at most once. -/
theorem lacks_after_removal {before after : List (Keys × StoreOp)} {op : StoreOp}
    (hf : Fresh (opsOn k before)) (hw : RawOverStored k (opsOn k before))
    (hr : ((empty.runAll before).space k).Removes x op)
    (ha : ∀ o ∈ opsOn k after, o.LeavesOut x) :
    (((empty.runAll before).apply k op).2.runAll after).Lacks k x ∧
      popCount x (((empty.runAll before).apply k op).2.history k after) ≤ 1 := by
  have hsound := sound_runAll hf hw x
  obtain ⟨hg, hc⟩ := Space.gone_of_removes hr
  obtain ⟨hg', hc'⟩ := Space.gone_run ((indexed_runAll k before).apply op) hg ha
  rw [history_eq, space_apply]
  constructor
  · refine lacks_of_gone ?_
    rw [space_runAll, space_apply]
    exact hg'
  · have := hsound.once
    omega

end Store

end DelayedQueue
