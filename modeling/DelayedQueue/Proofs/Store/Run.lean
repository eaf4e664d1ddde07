import DelayedQueue.Proofs.Store.Place

/-! # Runs of operations on one queue

What an operation does to a queue's space depends on that space alone, whether or not the
store has made it yet. A run of operations on a queue is therefore a run on its space. What an
operation does to one id is said once, as an effect on the place of that id.
-/

namespace DelayedQueue

open Std (ExtTreeMap ExtTreeSet)

namespace StoreOp

/-- The ids that an operation produces. -/
def produced : StoreOp → List String
  | .produce m _ => [m.id]
  | _ => []

/-- Whether an operation writes a row past the encoding. -/
def isRaw : StoreOp → Bool
  | .putRow .. => true
  | _ => false

/-- Whether an operation only changes when messages fall due. -/
def isTiming : StoreOp → Bool
  | .reschedule .. | .promote .. => true
  | _ => false

/-- Whether an operation makes the space of a queue that has none. -/
def makesSpace : StoreOp → Bool
  | .produce .. | .putRow .. => true
  | _ => false

theorem of_makesSpace_eq_false {op : StoreOp} (h : op.makesSpace = false) :
    op.produced = [] ∧ op.isRaw = false := by
  cases op with
  | produce | putRow => cases h
  | _ => exact ⟨rfl, rfl⟩

end StoreOp

namespace Space

variable {s : Space} {x : String}

/-- The result of an operation on a queue with this space, and the space it leaves. -/
def apply (s : Space) : StoreOp → StoreResult × Space
  | .produce m now => (.done, s.produce m now)
  | .take retry cap now => (.took (s.takeOne retry cap now).1, (s.takeOne retry cap now).2)
  | .commit id => (.flag (s.commit id).1, (s.commit id).2)
  | .reschedule id t => (.flag (s.reschedule id t).1, (s.reschedule id t).2)
  | .promote now limit => (.count (s.promoteDue now limit).1, (s.promoteDue now limit).2)
  | .purge => (.done, empty)
  | .putRow id row => (.done, s.putRow id row)

section Effects

/-- Whether `x` is one of the ids that an operation is about. -/
def Touches (s : Space) (x : String) : StoreOp → Prop
  | .produce m _ => m.id = x
  | .take .. => s.ready.head? = some x
  | .commit id => id = x
  | .reschedule id _ => id = x ∧ s.row? x ≠ none
  | .promote now limit => x ∈ (s.dueEntries now limit).map Prod.snd
  | .purge => True
  | .putRow id _ => id = x

/-- What an operation can make of the place of `x`. -/
inductive Effect (s : Space) (x : String) : StoreOp → Place → Prop

  | spared {op : StoreOp} : ¬ s.Touches x op → Effect s x op (s.place x)

  | readied {m : Message} {now : Time} : m.id = x → m.isImmediate now = true →
      Effect s x (.produce m now) ⟨(s.place x).copies + 1, (s.place x).due, some (Row.encode m)⟩

  | delayed {m : Message} {now t : Time} : m.id = x → m.deliverAt = some t →
      m.isImmediate now = false →
      Effect s x (.produce m now) ⟨(s.place x).copies, some t.millis, some (Row.encode m)⟩

  | popped {retry : Duration} {cap : UInt64} {now : Time} {p : Place} :
      s.ready.head? = some x → Pop x retry cap now (s.place x) (s.takeOne retry cap now).1 p →
      Effect s x (.take retry cap now) p

  | committed : Effect s x (.commit x) ⟨(s.place x).copies, none, none⟩

  | rescheduled {t : Time} {row : Bytes} : (s.place x).row = some row →
      Effect s x (.reschedule x t) ⟨0, some t.millis, some (rescheduledRow row t)⟩

  | promoted {now : Time} {limit : Nat} {t : Score} : (s.place x).due = some t →
      Effect s x (.promote now limit) ⟨(s.place x).copies + 1, none, (s.place x).row⟩

  | purged : Effect s x .purge .vacant

  | overwritten {row : Bytes} :
      Effect s x (.putRow x row) ⟨(s.place x).copies, (s.place x).due, some row⟩

theorem place_apply_of_not_touches {op : StoreOp} (h : ¬ s.Touches x op) (hi : s.Indexed) :
    (s.apply op).2.place x = s.place x := by
  cases op with
  | produce m now => exact place_produce_of_ne h
  | take retry cap now => exact place_takeOne_of_ne h
  | commit id => exact place_commit_of_ne h
  | reschedule id t =>
    by_cases hid : id = x
    · subst hid
      have hr : s.row? id = none := not_not.mp fun hr => h ⟨rfl, hr⟩
      rw [apply, reschedule_of_none hr]
    · exact place_reschedule_of_ne hid
  | promote now limit => exact (place_promoteDue hi).trans (if_neg h)
  | purge => exact absurd trivial h
  | putRow id row => exact place_putRow_of_ne h

theorem Effect.congr {op : StoreOp} {p p' : Place} (h : s.Effect x op p) (he : p' = p) :
    s.Effect x op p' := he ▸ h

theorem effect_apply (hi : s.Indexed) (x : String) (op : StoreOp) :
    s.Effect x op ((s.apply op).2.place x) := by
  by_cases h : s.Touches x op
  · cases op with
    | produce m now =>
      obtain rfl : m.id = x := h
      cases him : m.isImmediate now with
      | true => exact (Effect.readied rfl him).congr (place_produce_self.trans (if_pos him))
      | false =>
        obtain ⟨t, ht⟩ : ∃ t, m.deliverAt = some t := by
          cases hd : m.deliverAt with
          | none => simp [Message.isImmediate, hd] at him
          | some t => exact ⟨t, rfl⟩
        refine (Effect.delayed rfl ht him).congr (place_produce_self.trans ?_)
        rw [him, ht]; rfl
    | take retry cap now => exact .popped h (pop_of_head retry cap now h)
    | commit id =>
      obtain rfl : id = x := h
      exact Effect.committed.congr place_commit_self
    | reschedule id t =>
      obtain ⟨rfl, hr⟩ := h
      obtain ⟨row, hrow⟩ := Option.ne_none_iff_exists'.mp hr
      exact (Effect.rescheduled hrow).congr (place_reschedule_self hrow)
    | promote now limit =>
      obtain ⟨⟨t, _⟩, he, rfl⟩ := List.mem_map.mp h
      have hd : s.score? _ = some t := (hi t _).mp (mem_schedule_of_mem_dueEntries he)
      exact (Effect.promoted hd).congr ((place_promoteDue hi).trans (if_pos h))
    | purge => exact Effect.purged.congr place_empty
    | putRow id row =>
      obtain rfl : id = x := h
      exact Effect.overwritten.congr place_putRow_self
  · exact (Effect.spared h).congr (place_apply_of_not_touches h hi)

end Effects

def run (s : Space) (ops : List StoreOp) : Space := ops.foldl (fun s op => (s.apply op).2) s

@[simp] theorem run_nil : s.run [] = s := rfl

theorem run_append (ops ops' : List StoreOp) : s.run (ops ++ ops') = (s.run ops).run ops' :=
  List.foldl_append

theorem run_concat (ops : List StoreOp) (op : StoreOp) :
    s.run (ops ++ [op]) = ((s.run ops).apply op).2 := run_append ops [op]

theorem Indexed.produce (h : s.Indexed) (m : Message) (now : Time) : (s.produce m now).Indexed := by
  have hp : (s.putRow m.id (Row.encode m)).Indexed := h.putRow _ _
  unfold Space.produce
  split
  · exact hp.setReady _
  · split
    · exact hp.setReady _
    · exact hp.arm _ _

theorem Indexed.takeOne (h : s.Indexed) (retry : Duration) (cap : UInt64) (now : Time) :
    (s.takeOne retry cap now).2.Indexed := by
  unfold Space.takeOne
  cases hs : s.ready with
  | nil => exact h
  | cons id ready =>
    have hr := h.setReady ready
    simp only
    split
    · exact hr.disarm id
    · split
      · exact hr.arm id _
      · split
        · exact (hr.dropRow id).disarm id
        · exact (hr.putRow id _).arm id _

theorem Indexed.reschedule (h : s.Indexed) (id : String) (t : Time) :
    (s.reschedule id t).2.Indexed := by
  cases hr : s.row? id with
  | none => rwa [reschedule_of_none hr]
  | some row =>
    rw [reschedule_of_some hr]
    exact ((h.putRow id (rescheduledRow row t)).setReady _).arm id _

theorem Indexed.apply (h : s.Indexed) (op : StoreOp) : (s.apply op).2.Indexed := by
  cases op with
  | produce m now => exact h.produce m now
  | take retry cap now => exact h.takeOne retry cap now
  | commit id => exact (h.disarm id).dropRow id
  | reschedule id t => exact h.reschedule id t
  | promote now limit => exact h.promoteDue
  | purge => exact indexed_empty
  | putRow id row => exact h.putRow id row

theorem Indexed.run (h : s.Indexed) (ops : List StoreOp) : (s.run ops).Indexed := by
  induction ops generalizing s with
  | nil => exact h
  | cons op ops ih => exact ih (h.apply op)

theorem apply_empty (op : StoreOp) (hp : op.produced = []) (hr : op.isRaw = false) :
    (empty.apply op).2 = empty := by
  have hd : ∀ id, empty.disarm id = empty := fun id => by simp [disarm, empty]
  cases op with
  | produce => simp [StoreOp.produced] at hp
  | take => rfl
  | commit id => simp [apply, commit, hd, dropRow]; simp [empty]
  | reschedule id t => simp [apply, reschedule_of_none, row?, empty]
  | promote now limit =>
    have hl : (∅ : ExtTreeSet (Score × String) Score.order).toList = [] :=
      ExtTreeSet.toList_eq_nil_iff.mpr rfl
    simp [apply, promoteDue, dueEntries, empty, hl]
  | purge => rfl
  | putRow => simp [StoreOp.isRaw] at hr

end Space

namespace Store

variable {s : Store} {k : Keys}

def run (s : Store) (k : Keys) (ops : List StoreOp) : Store :=
  ops.foldl (fun s op => (s.apply k op).2) s

@[simp] theorem run_nil : s.run k [] = s := rfl

theorem run_append (ops ops' : List StoreOp) :
    s.run k (ops ++ ops') = (s.run k ops).run k ops' := List.foldl_append

@[simp] theorem space_empty : empty.space k = Space.empty := by simp [space, empty]

@[simp] theorem space_setSpace {sp : Space} : (s.setSpace k sp).space k = sp := by
  simp [space, setSpace]

theorem onSpace_fst {α : Type} (f : Space → α × Space) : (s.onSpace k f).1 = (f (s.space k)).1 := by
  unfold onSpace space; split <;> simp_all

theorem space_onSpace {α : Type} (f : Space → α × Space) (hf : (f Space.empty).2 = Space.empty) :
    (s.onSpace k f).2.space k = (f (s.space k)).2 := by
  unfold onSpace
  split
  · next h =>
    have he : s.space k = Space.empty := by simp [space, h]
    rw [he, hf, ← he]
  · next sp h =>
    have he : s.space k = sp := by simp [space, h]
    rw [space_setSpace, he]

theorem takeOne_fst (retry : Duration) (cap : UInt64) (now : Time) :
    (s.takeOne k retry cap now).1 = ((s.space k).takeOne retry cap now).1 :=
  onSpace_fst fun sp => sp.takeOne retry cap now

theorem apply_fst (op : StoreOp) : (s.apply k op).1 = ((s.space k).apply op).1 := by
  cases op with
  | produce | purge | putRow => rfl
  | take retry cap now => exact congrArg StoreResult.took (takeOne_fst retry cap now)
  | commit id => exact congrArg StoreResult.flag (onSpace_fst fun sp => sp.commit id)
  | reschedule id t => exact congrArg StoreResult.flag (onSpace_fst fun sp => sp.reschedule id t)
  | promote now limit =>
    exact congrArg StoreResult.count (onSpace_fst fun sp => sp.promoteDue now limit)

theorem space_apply (op : StoreOp) : (s.apply k op).2.space k = ((s.space k).apply op).2 := by
  cases op with
  | produce | putRow => exact space_setSpace
  | purge => simp [apply, purge, space, Space.apply]
  | take retry cap now =>
    exact space_onSpace (fun sp => sp.takeOne retry cap now)
      (Space.apply_empty (.take retry cap now) rfl rfl)
  | commit id =>
    exact space_onSpace (fun sp => sp.commit id) (Space.apply_empty (.commit id) rfl rfl)
  | reschedule id t =>
    exact space_onSpace (fun sp => sp.reschedule id t)
      (Space.apply_empty (.reschedule id t) rfl rfl)
  | promote now limit =>
    exact space_onSpace (fun sp => sp.promoteDue now limit)
      (Space.apply_empty (.promote now limit) rfl rfl)

theorem space_takeOne (retry : Duration) (cap : UInt64) (now : Time) :
    (s.takeOne k retry cap now).2.space k = ((s.space k).takeOne retry cap now).2 :=
  space_apply (.take retry cap now)

theorem setSpace_setSpace {sp sp' : Space} :
    (s.setSpace k sp).setSpace k sp' = s.setSpace k sp' := by
  refine congrArg Store.mk (ExtTreeMap.ext_getElem? fun x => ?_)
  simp only [setSpace, ExtTreeMap.getElem?_insert]
  split <;> rfl

/-- An operation sets the space of a queue if there is one or if it makes one. -/
theorem apply_snd {op : StoreOp} (hp : op ≠ .purge) : (s.apply k op).2 =
    if s.spaces.contains k.data || op.makesSpace then s.setSpace k ((s.space k).apply op).2
    else s := by
  have hc {α : Type} (f : Space → α × Space) : (s.onSpace k f).2 =
      if s.spaces.contains k.data || false then s.setSpace k (f (s.space k)).2 else s := by
    rw [Bool.or_false, ← ExtTreeMap.isSome_getElem?_eq_contains]
    unfold onSpace space
    cases s.spaces[k.data]? <;> rfl
  cases op with
  | produce | putRow => simp only [StoreOp.makesSpace, Bool.or_true, if_true]; rfl
  | purge => exact absurd rfl hp
  | take retry cap now => exact hc fun sp => sp.takeOne retry cap now
  | commit id => exact hc fun sp => sp.commit id
  | reschedule id t => exact hc fun sp => sp.reschedule id t
  | promote now limit => exact hc fun sp => sp.promoteDue now limit

theorem apply_apply_snd {X Y : StoreOp} (hX : X ≠ .purge) (hY : Y ≠ .purge) :
    ((s.apply k X).2.apply k Y).2 =
    if s.spaces.contains k.data || (X.makesSpace || Y.makesSpace) then
      s.setSpace k (((s.space k).apply X).2.apply Y).2
    else s := by
  rw [apply_snd hY, space_apply, apply_snd hX]
  by_cases hm : (s.spaces.contains k.data || X.makesSpace) = true
  · have hc (sp : Space) : (s.setSpace k sp).spaces.contains k.data = true := by simp [setSpace]
    have hm' : (s.spaces.contains k.data || (X.makesSpace || Y.makesSpace)) = true := by
      rw [← Bool.or_assoc, hm, Bool.true_or]
    simp only [if_pos hm, if_pos hm', hc, Bool.true_or, if_true, setSpace_setSpace]
  · obtain ⟨hc, hx⟩ := Bool.or_eq_false_iff.mp (Bool.eq_false_iff.mpr hm)
    obtain ⟨hproduced, hraw⟩ := StoreOp.of_makesSpace_eq_false hx
    have he : s.space k = .empty := by
      rw [← ExtTreeMap.isSome_getElem?_eq_contains, Option.isSome_eq_false_iff,
        Option.isNone_iff_eq_none] at hc
      rw [space, hc]
      rfl
    rw [if_neg hm, hx, Bool.false_or, he, Space.apply_empty X hproduced hraw]

theorem space_run (ops : List StoreOp) : (s.run k ops).space k = (s.space k).run ops := by
  induction ops generalizing s with
  | nil => rfl
  | cons op ops ih =>
    have h := ih (s := (s.apply k op).2)
    rwa [space_apply] at h

section Queues

variable {k' : Keys}

/-- Runs operations on any queues of the store. -/
def runAll (s : Store) (ops : List (Keys × StoreOp)) : Store :=
  ops.foldl (fun s o => (s.apply o.1 o.2).2) s

/-- The operations on one queue. -/
def opsOn (k : Keys) (ops : List (Keys × StoreOp)) : List StoreOp :=
  (ops.filter fun o => o.1.data = k.data).map Prod.snd

theorem apply_of_data_eq (h : k'.data = k.data) (op : StoreOp) : s.apply k' op = s.apply k op := by
  cases op <;> simp only [apply, produce, takeOne, commit, reschedule, promoteDue, purge, putRow,
    onSpace, setSpace, space, h]

theorem space_setSpace_of_ne (h : k'.data ≠ k.data) (sp : Space) :
    (s.setSpace k' sp).space k = s.space k := by
  simp [space, setSpace, ExtTreeMap.getElem?_insert, h]

theorem space_onSpace_of_ne {α : Type} (h : k'.data ≠ k.data) (f : Space → α × Space) :
    (s.onSpace k' f).2.space k = s.space k := by
  unfold onSpace
  split
  · rfl
  · exact space_setSpace_of_ne h _

theorem space_apply_of_ne (h : k'.data ≠ k.data) (op : StoreOp) :
    (s.apply k' op).2.space k = s.space k := by
  cases op with
  | produce | putRow => exact space_setSpace_of_ne h _
  | take retry cap now => exact space_onSpace_of_ne h fun sp => sp.takeOne retry cap now
  | commit id => exact space_onSpace_of_ne h fun sp => sp.commit id
  | reschedule id t => exact space_onSpace_of_ne h fun sp => sp.reschedule id t
  | promote now limit => exact space_onSpace_of_ne h fun sp => sp.promoteDue now limit
  | purge => simp [apply, purge, space, ExtTreeMap.getElem?_erase, h]

theorem space_runAll (ops : List (Keys × StoreOp)) :
    (s.runAll ops).space k = (s.space k).run (opsOn k ops) := by
  induction ops generalizing s with
  | nil => rfl
  | cons o ops ih =>
    obtain ⟨k', op⟩ := o
    refine (ih (s := (s.apply k' op).2)).trans ?_
    by_cases h : k'.data = k.data
    · rw [apply_of_data_eq h, space_apply]
      simp [opsOn, h, Space.run]
    · rw [space_apply_of_ne h]
      simp [opsOn, h]

theorem indexed_runAll (k : Keys) (ops : List (Keys × StoreOp)) :
    ((empty.runAll ops).space k).Indexed := by
  rw [space_runAll, space_empty]
  exact Space.indexed_empty.run _

end Queues

end Store

end DelayedQueue
