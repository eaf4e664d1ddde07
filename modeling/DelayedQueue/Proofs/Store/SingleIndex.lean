import Mathlib.Data.List.Sort
import DelayedQueue.Proofs.Store.Run

/-! # A store with one index

The plain store keeps one pending map and finds what has fallen due by sorting. The store with its
two indexes cannot be told from it: they go through corresponding states and answer alike.
-/

namespace DelayedQueue

open Std (ExtTreeMap ExtTreeSet)

/-- A space whose pending ids are indexed by id alone. -/
structure PlainSpace where
  ready : List String
  pending : ExtTreeMap String Score
  rows : ExtTreeMap String Bytes

namespace PlainSpace

def empty : PlainSpace := ⟨[], ∅, ∅⟩

def stats (s : PlainSpace) : Stats := ⟨s.ready.length, s.pending.size, s.rows.size⟩

def disarm (s : PlainSpace) (id : String) : PlainSpace := { s with pending := s.pending.erase id }

def arm (s : PlainSpace) (id : String) (due : Score) : PlainSpace :=
  { s with pending := s.pending.insert id due }

def putRow (s : PlainSpace) (id : String) (row : Bytes) : PlainSpace :=
  { s with rows := s.rows.insert id row }

def dropRow (s : PlainSpace) (id : String) : PlainSpace := { s with rows := s.rows.erase id }

def produce (s : PlainSpace) (m : Message) (now : Time) : PlainSpace :=
  let s := s.putRow m.id (Row.encode m)
  match m.deliverAt with
  | none => { s with ready := s.ready ++ [m.id] }
  | some t =>
    if m.isImmediate now then { s with ready := s.ready ++ [m.id] } else s.arm m.id t.millis

def takeOne (s : PlainSpace) (retry : Duration) (maxDeliveries : UInt64) (now : Time) :
    Take × PlainSpace :=
  match s.ready with
  | [] => (.empty, s)
  | id :: ready =>
    let s := { s with ready }
    match s.rows[id]? with
    | none => (.empty, s.disarm id)
    | some row =>
      let due := Score.addMillis now.millis retry
      match Row.decode row with
      | .error _ => (.taken row, s.arm id due)
      | .ok m =>
        if maxDeliveries ≤ m.deliveries then
          (.exhausted id m.deliveries, (s.dropRow id).disarm id)
        else
          let row := Row.encode { m with deliveries := m.deliveries + 1, redeliverAt := some now }
          (.taken row, (s.putRow id row).arm id due)

def commit (s : PlainSpace) (id : String) : Bool × PlainSpace :=
  (s.rows.contains id, (s.disarm id).dropRow id)

def reschedule (s : PlainSpace) (id : String) (t : Time) : Bool × PlainSpace :=
  match s.rows[id]? with
  | none => (false, s)
  | some row =>
    let s := match Row.decode row with
      | .error _ => s
      | .ok m => s.putRow id (Row.encode { m with deliverAt := some t })
    (true, { s with ready := s.ready.filter (· != id) }.arm id t.millis)

/-- The entries that have fallen due, sorted by score and by the bytes of the id. -/
def dueEntries (s : PlainSpace) (now : Time) (limit : Nat) : List (Score × String) :=
  (((s.pending.toList.map Prod.swap).filter fun e => e.1 ≤ now.millis).mergeSort
    fun a b => (Score.order a b).isLE).take limit

def promoteDue (s : PlainSpace) (now : Time) (limit : Nat) : Nat × PlainSpace :=
  let due := s.dueEntries now limit
  (due.length, { s with
    ready := s.ready ++ due.map Prod.snd
    pending := due.foldl (fun pending e => pending.erase e.2) s.pending })

def apply (s : PlainSpace) : StoreOp → StoreResult × PlainSpace
  | .produce m now => (.done, s.produce m now)
  | .take retry cap now => let (t, s) := s.takeOne retry cap now; (.took t, s)
  | .commit id => let (b, s) := s.commit id; (.flag b, s)
  | .reschedule id t => let (b, s) := s.reschedule id t; (.flag b, s)
  | .promote now limit => let (n, s) := s.promoteDue now limit; (.count n, s)
  | .purge => (.done, empty)
  | .putRow id row => (.done, s.putRow id row)

end PlainSpace

/-- Plain spaces by queue. -/
structure PlainStore where
  spaces : ExtTreeMap String PlainSpace

namespace PlainStore

def empty : PlainStore := ⟨∅⟩

def space (s : PlainStore) (k : Keys) : PlainSpace := s.spaces[k.data]?.getD .empty

def setSpace (s : PlainStore) (k : Keys) (sp : PlainSpace) : PlainStore :=
  ⟨s.spaces.insert k.data sp⟩

def stats (s : PlainStore) (k : Keys) : Stats := (s.space k).stats

/-- Only producing or writing a row makes a space, and a purge drops it. -/
def apply (s : PlainStore) (k : Keys) (op : StoreOp) : StoreResult × PlainStore :=
  let (r, sp) := (s.space k).apply op
  match op with
  | .produce .. | .putRow .. => (r, s.setSpace k sp)
  | .purge => (r, ⟨s.spaces.erase k.data⟩)
  | _ => (r, if s.spaces.contains k.data then s.setSpace k sp else s)

def runAll (s : PlainStore) (ops : List (Keys × StoreOp)) : PlainStore :=
  ops.foldl (fun s o => (s.apply o.1 o.2).2) s

end PlainStore

section Sorting

theorem takeWhile_eq_filter_of_pairwise {α : Type} {p : α → Bool} {l : List α}
    (h : l.Pairwise fun a b => p b = true → p a = true) : l.takeWhile p = l.filter p := by
  induction l with
  | nil => rfl
  | cons a l ih =>
    obtain ⟨ha, hl⟩ := List.pairwise_cons.mp h
    by_cases hp : p a = true
    · rw [List.takeWhile_cons_of_pos hp, List.filter_cons_of_pos hp, ih hl]
    · have hnil : l.filter p = [] :=
        List.filter_eq_nil_iff.mpr fun b hb hpb => hp (ha b hb hpb)
      rw [List.takeWhile_cons_of_neg hp, List.filter_cons_of_neg hp, hnil]

namespace Score

variable {a b c : Score × String}

theorem fst_le_of_order_lt (h : order a b = .lt) : a.1 ≤ b.1 := by
  have h : (compare a.1 b.1).then (compare a.2 b.2) = .lt := h
  rcases Ordering.then_eq_lt.mp h with h | ⟨h, -⟩
  · exact Int.le_of_lt (Std.compare_eq_lt.mp h)
  · exact Int.le_of_eq (Std.LawfulEqOrd.eq_of_compare h)

theorem order_isLE_total (a b : Score × String) :
    ((order a b).isLE || (order b a).isLE) = true := by
  have hswap : order b a = (order a b).swap := Std.OrientedCmp.eq_swap
  rw [hswap]
  cases order a b <;> rfl

end Score

end Sorting

namespace Space

variable {s : Space} {id x : String} {t : Score} {now : Time} {limit : Nat}

/-- The space without its second index. -/
def plain (s : Space) : PlainSpace := ⟨s.ready, s.pending, s.rows⟩

section Due

theorem schedule_takeWhile :
    (s.schedule.toList.takeWhile fun e => e.1 ≤ now.millis) =
      s.schedule.toList.filter fun e => e.1 ≤ now.millis := by
  refine takeWhile_eq_filter_of_pairwise (ExtTreeSet.ordered_toList.imp fun h hb => ?_)
  simp only [decide_eq_true_eq] at hb ⊢
  exact Int.le_trans (Score.fst_le_of_order_lt h) hb

theorem Indexed.perm (h : s.Indexed) :
    (s.pending.toList.map Prod.swap).Perm s.schedule.toList := by
  have hd : s.schedule.toList.Nodup :=
    ExtTreeSet.distinct_toList.imp fun {a b} h (he : a = b) => h (he ▸ Std.ReflCmp.compare_self)
  have hp : s.pending.toList.Nodup :=
    ExtTreeMap.distinct_keys_toList.imp fun {a b} h (he : a = b) =>
      h (he ▸ Std.ReflCmp.compare_self)
  refine (List.perm_ext_iff_of_nodup (hp.map Prod.swap_injective) hd).mpr fun e => ?_
  obtain ⟨t, x⟩ := e
  have hm : (t, x) ∈ s.pending.toList.map Prod.swap ↔ (x, t) ∈ s.pending.toList :=
    List.mem_map_of_injective Prod.swap_injective (a := (x, t))
  rw [hm, ExtTreeMap.mem_toList_iff_getElem?_eq_some, ExtTreeSet.mem_toList]
  exact (h t x).symm

/-- Sorting finds what the schedule has in order. -/
theorem Indexed.dueEntries (h : s.Indexed) :
    s.dueEntries now limit = s.plain.dueEntries now limit := by
  unfold Space.dueEntries PlainSpace.dueEntries
  rw [schedule_takeWhile]
  congr 1
  have hs : (s.schedule.toList.filter fun e => e.1 ≤ now.millis).Pairwise
      fun a b => (Score.order a b).isLE = true :=
    (ExtTreeSet.ordered_toList.imp fun {a b} h => by rw [h]; rfl).sublist List.filter_sublist
  refine List.Perm.eq_of_pairwise (fun a b _ _ hab hba => ?_) hs
    (List.pairwise_mergeSort (fun _ _ _ => Std.TransCmp.isLE_trans) Score.order_isLE_total _) ?_
  · exact Std.LawfulEqCmp.eq_of_compare (Std.OrientedCmp.isLE_antisymm hab hba)
  · exact ((h.perm.filter _).symm).trans (List.mergeSort_perm _ _).symm

end Due

section Simulation

variable {m : Message} {retry : Duration} {cap : UInt64} {row : Bytes} {op : StoreOp}

theorem plain_ready : s.plain.ready = s.ready := rfl
theorem plain_pending : s.plain.pending = s.pending := rfl
theorem plain_rows : s.plain.rows = s.rows := rfl

@[simp] theorem plain_disarm : (s.disarm id).plain = s.plain.disarm id := by
  unfold disarm
  split
  · next hn =>
    have he : s.pending.erase id = s.pending := by
      refine ExtTreeMap.ext_getElem? fun x => ?_
      rw [ExtTreeMap.getElem?_erase]
      split
      · next h => rw [← Std.LawfulEqCmp.eq_of_compare h, hn]
      · rfl
    simp only [plain, PlainSpace.disarm, he]
  · rfl

@[simp] theorem plain_arm {due : Score} : (s.arm id due).plain = s.plain.arm id due := by
  have hd : (s.disarm id).plain = s.plain.disarm id := plain_disarm
  have hp : (s.disarm id).pending = s.pending.erase id := congrArg PlainSpace.pending hd
  have hi : (s.pending.erase id).insert id due = s.pending.insert id due := by
    refine ExtTreeMap.ext_getElem? fun x => ?_
    simp only [ExtTreeMap.getElem?_insert, ExtTreeMap.getElem?_erase]
    split <;> rfl
  unfold arm
  simp only [plain, PlainSpace.arm, hp, hi, ready_disarm, rows_disarm]

@[simp] theorem plain_putRow : (s.putRow id row).plain = s.plain.putRow id row := rfl

@[simp] theorem plain_dropRow : (s.dropRow id).plain = s.plain.dropRow id := rfl

theorem plain_produce : (s.produce m now).plain = s.plain.produce m now := by
  unfold produce PlainSpace.produce
  cases m.deliverAt with
  | none => rfl
  | some t =>
    simp only
    split
    · rfl
    · rw [plain_arm, plain_putRow]

theorem plain_takeOne : s.plain.takeOne retry cap now =
    ((s.takeOne retry cap now).1, (s.takeOne retry cap now).2.plain) := by
  unfold takeOne PlainSpace.takeOne
  simp only [plain_ready, plain_pending, plain_rows]
  cases s.ready with
  | nil => rfl
  | cons id ready =>
    simp only
    cases s.rows[id]? with
    | none => simp only [plain_disarm]; rfl
    | some row =>
      simp only
      cases Row.decode row with
      | error f => simp only [plain_arm]; rfl
      | ok m =>
        simp only
        split
        · simp only [plain_disarm]; rfl
        · simp only [plain_arm]; rfl

theorem plain_commit : s.plain.commit id = ((s.commit id).1, (s.commit id).2.plain) :=
  Prod.ext rfl (by simp [commit, PlainSpace.commit])

theorem plain_reschedule {t : Time} :
    s.plain.reschedule id t = ((s.reschedule id t).1, (s.reschedule id t).2.plain) := by
  unfold reschedule PlainSpace.reschedule
  simp only [plain_rows]
  cases s.rows[id]? with
  | none => rfl
  | some row =>
    simp only
    cases Row.decode row with
    | error f => simp only [plain_arm]; rfl
    | ok m => simp only [plain_arm]; rfl

theorem plain_foldl_promoteEntry (due : List (Score × String)) :
    (due.foldl promoteEntry s).plain = { s.plain with
      ready := s.ready ++ due.map Prod.snd
      pending := due.foldl (fun pending e => pending.erase e.2) s.pending } := by
  induction due generalizing s with
  | nil => simp [plain]
  | cons e due ih =>
    rw [List.foldl_cons, ih]
    simp [promoteEntry, plain]

theorem Indexed.plain_promoteDue (h : s.Indexed) : s.plain.promoteDue now limit =
    ((s.promoteDue now limit).1, (s.promoteDue now limit).2.plain) := by
  unfold Space.promoteDue PlainSpace.promoteDue
  rw [← h.dueEntries, plain_foldl_promoteEntry]
  rfl

/-- An operation on the plain space gives the same answer and the corresponding space. -/
theorem Indexed.plain_apply (h : s.Indexed) (op : StoreOp) :
    s.plain.apply op = ((s.apply op).1, (s.apply op).2.plain) := by
  cases op with
  | produce m now => exact Prod.ext rfl plain_produce.symm
  | take retry cap now => simp only [PlainSpace.apply, plain_takeOne, Space.apply]
  | commit id => simp only [PlainSpace.apply, plain_commit, Space.apply]
  | reschedule id t => simp only [PlainSpace.apply, plain_reschedule, Space.apply]
  | promote now limit => simp only [PlainSpace.apply, h.plain_promoteDue, Space.apply]
  | purge => rfl
  | putRow id row => rfl

end Simulation

end Space

namespace Store

variable {s : Store} {k : Keys}

/-- The store without the second index of each space. -/
def plain (s : Store) : PlainStore := ⟨s.spaces.map fun _ sp => sp.plain⟩

theorem plain_space : s.plain.space k = (s.space k).plain := by
  simp only [plain, PlainStore.space, space, ExtTreeMap.getElem?_map]
  cases s.spaces[k.data]? <;> rfl

theorem plain_setSpace {sp : Space} : (s.setSpace k sp).plain = s.plain.setSpace k sp.plain := by
  refine congrArg PlainStore.mk (ExtTreeMap.ext_getElem? fun x => ?_)
  simp only [setSpace, plain, ExtTreeMap.getElem?_map, ExtTreeMap.getElem?_insert]
  split <;> rfl

theorem plain_purge : (s.purge k).plain = ⟨s.plain.spaces.erase k.data⟩ := by
  refine congrArg PlainStore.mk (ExtTreeMap.ext_getElem? fun x => ?_)
  simp only [purge, plain, ExtTreeMap.getElem?_map, ExtTreeMap.getElem?_erase]
  split <;> rfl

theorem plain_onSpace {α : Type} (f : Space → α × Space) : (s.onSpace k f).2.plain =
    if s.plain.spaces.contains k.data then s.plain.setSpace k (f (s.space k)).2.plain
    else s.plain := by
  have hc : s.plain.spaces.contains k.data = s.spaces[k.data]?.isSome := by
    rw [← ExtTreeMap.isSome_getElem?_eq_contains]
    simp only [plain, ExtTreeMap.getElem?_map, Option.isSome_map]
  rw [hc]
  unfold onSpace space
  cases s.spaces[k.data]? with
  | none => rfl
  | some sp => exact plain_setSpace

theorem plain_apply (h : (s.space k).Indexed) (op : StoreOp) :
    s.plain.apply k op = ((s.apply k op).1, (s.apply k op).2.plain) := by
  have hp : (s.plain.space k).apply op =
      (((s.space k).apply op).1, ((s.space k).apply op).2.plain) := by
    rw [plain_space]; exact h.plain_apply op
  rw [apply_fst]
  simp only [PlainStore.apply, hp]
  cases op with
  | produce | putRow => exact congrArg (Prod.mk _) plain_setSpace.symm
  | purge => exact congrArg (Prod.mk _) plain_purge.symm
  | take retry cap now =>
    exact congrArg (Prod.mk _) (plain_onSpace fun sp => sp.takeOne retry cap now).symm
  | commit id => exact congrArg (Prod.mk _) (plain_onSpace fun sp => sp.commit id).symm
  | reschedule id t => exact congrArg (Prod.mk _) (plain_onSpace fun sp => sp.reschedule id t).symm
  | promote now limit =>
    exact congrArg (Prod.mk _) (plain_onSpace fun sp => sp.promoteDue now limit).symm

theorem indexed_apply (h : ∀ k, (s.space k).Indexed) (k' : Keys) (op : StoreOp) (k : Keys) :
    ((s.apply k' op).2.space k).Indexed := by
  by_cases hk : k'.data = k.data
  · rw [apply_of_data_eq hk, space_apply]
    exact (h k).apply op
  · rw [space_apply_of_ne hk]
    exact h k

theorem plain_runAll (h : ∀ k, (s.space k).Indexed) (ops : List (Keys × StoreOp)) :
    (∀ k, ((s.runAll ops).space k).Indexed) ∧ (s.runAll ops).plain = s.plain.runAll ops := by
  induction ops generalizing s with
  | nil => exact ⟨h, rfl⟩
  | cons o ops ih =>
    obtain ⟨hi, hp⟩ := ih (indexed_apply h o.1 o.2)
    refine ⟨hi, hp.trans ?_⟩
    simp only [PlainStore.runAll, List.foldl_cons, plain_apply (h o.1) o.2]

/-- After any operations the schedule of a queue is its pending map read from due time to id, the
store has the state of a store with one index, and whatever comes next both answer the same. -/
theorem single_index (ops : List (Keys × StoreOp)) :
    (∀ k t x, (t, x) ∈ ((empty.runAll ops).space k).schedule ↔
      ((empty.runAll ops).space k).pending[x]? = some t) ∧
    (empty.runAll ops).plain = PlainStore.empty.runAll ops ∧
    (∀ k op, ((empty.runAll ops).apply k op).1 = ((PlainStore.empty.runAll ops).apply k op).1 ∧
      ((empty.runAll ops).apply k op).2.plain = ((PlainStore.empty.runAll ops).apply k op).2) ∧
    ∀ k, (empty.runAll ops).stats k = (PlainStore.empty.runAll ops).stats k := by
  have he : empty.plain = .empty := by
    refine congrArg PlainStore.mk (ExtTreeMap.ext_getElem? fun x => ?_)
    simp [empty]
  have hi₀ (k : Keys) : (empty.space k).Indexed := by rw [space_empty]; exact Space.indexed_empty
  obtain ⟨hi, hp⟩ := plain_runAll hi₀ ops
  rw [he] at hp
  refine ⟨fun k => hi k, hp, fun k op => ?_, fun k => ?_⟩
  · rw [← hp, plain_apply (hi k) op]
    exact ⟨rfl, rfl⟩
  · rw [← hp, PlainStore.stats, plain_space]
    rfl

end Store

end DelayedQueue
