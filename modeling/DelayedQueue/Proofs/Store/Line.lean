import DelayedQueue.Proofs.Store.Punctuality
import DelayedQueue.Proofs.Store.Turn
import DelayedQueue.Proofs.Text.ByteOrder

/-! # First in, first out

Ids are popped in the order in which they enter the ready list. A message that is due at once
enters when it is produced, and a promotion lets the ids enter that it moves, by their due times
and then by their bytes. Only a reschedule takes an id out of the list, and the id loses that
place; nothing else that happens meanwhile lets one id overtake another.
-/

namespace DelayedQueue

open Std (ExtTreeMap ExtTreeSet)

namespace Space

variable {s : Space} {a b x : String} {op : StoreOp}

/-- The ids that an operation puts at the end of the ready list, in this order. -/
def entered (s : Space) : StoreOp → List String
  | .produce m now => if m.isImmediate now then [m.id] else []
  | .promote now limit => (s.dueEntries now limit).map Prod.snd
  | _ => []

/-- The id that an operation takes from the front of the ready list. -/
def popped? (s : Space) : StoreOp → Option String
  | .take .. => s.ready.head?
  | _ => none

/-- Whether `x` is set anew before it is popped again. -/
def forfeits (x : String) : List (Space × StoreOp) → Bool
  | [] => false
  | (s, op) :: h => !s.pops x op && ((s.rescheduled? x op).isSome || forfeits x h)

/-- The ids that are popped, in this order. -/
def popped (h : List (Space × StoreOp)) : List String := h.filterMap fun e => e.1.popped? e.2

/-- The ids that enter the ready list and do not forfeit their place there, in this order. -/
def entries : List (Space × StoreOp) → List String
  | [] => []
  | (s, op) :: h => (s.entered op).filter (fun x => !forfeits x h) ++ entries h

theorem pops_iff : s.pops x op = true ↔ s.popped? op = some x := by
  cases op <;> simp [pops, popped?]

theorem popped?_of_not_take (ht : op.isTake = false) : s.popped? op = none := by
  cases op with
  | take => cases ht
  | _ => rfl

theorem not_isTake_of_entered (h : x ∈ s.entered op) : op.isTake = false := by
  cases op with
  | take => cases h
  | _ => rfl

section Step

theorem ready_produce {m : Message} {now : Time} : (s.produce m now).ready =
    s.ready ++ if m.isImmediate now then [m.id] else [] := by
  unfold produce
  cases hd : m.deliverAt with
  | none => simp [Message.isImmediate, hd, putRow]
  | some t =>
    by_cases hi : m.isImmediate now = true
    · simp [hi, putRow]
    · simp [hi, putRow]

theorem ready_reschedule {id : String} {t : Time} : (s.reschedule id t).2.ready =
    s.ready.filter fun x => (s.rescheduled? x (.reschedule id t)).isNone := by
  cases hr : s.row? id with
  | none =>
    rw [reschedule_of_none hr]
    simp [rescheduled?, reschedule_of_none hr]
  | some row =>
    have hx : ∀ x, (s.rescheduled? x (.reschedule id t)).isNone = (x != id) := by
      intro x
      rw [rescheduled?, reschedule_of_some hr]
      by_cases he : id = x
      · simp [he]
      · simp [he, Ne.symm he]
    rw [reschedule_of_some hr]
    simp [hx]

/-- An operation pops the head of the ready list, drops what it sets anew, or puts ids at the end
of the list. Nothing else happens to it. -/
theorem popped?_append_ready (hp : op ≠ .purge) : (s.popped? op).toList ++ (s.apply op).2.ready =
    s.ready.filter (fun x => (s.rescheduled? x op).isNone) ++ s.entered op := by
  cases op with
  | produce m now => simp [apply, popped?, ready_produce, rescheduled?, entered]
  | take retry cap now =>
    have hready : (s.apply (.take retry cap now)).2.ready = s.ready.tail := ready_takeOne
    rw [hready]
    cases hs : s.ready <;> simp [popped?, rescheduled?, entered, hs]
  | commit id => simp [apply, popped?, commit, dropRow, rescheduled?, entered]
  | reschedule id t => simp [apply, popped?, ready_reschedule, entered]
  | promote now limit => simp [apply, popped?, ready_promoteDue, rescheduled?, entered]
  | purge => exact absurd rfl hp
  | putRow id row => simp [apply, popped?, putRow, rescheduled?, entered]

theorem ready_apply (hp : op ≠ .purge) (ht : op.isTake = false) : (s.apply op).2.ready =
    s.ready.filter (fun x => (s.rescheduled? x op).isNone) ++ s.entered op := by
  rw [← popped?_append_ready hp, popped?_of_not_take ht, Option.toList_none, List.nil_append]

theorem forfeits_take {retry : Duration} {cap : UInt64} {now : Time} {h : List (Space × StoreOp)} :
    forfeits x ((s, .take retry cap now) :: h) =
      (!s.pops x (.take retry cap now) && forfeits x h) := by
  simp [forfeits, rescheduled?]

theorem forfeits_of_not_take {h : List (Space × StoreOp)} (ht : op.isTake = false) :
    forfeits x ((s, op) :: h) = ((s.rescheduled? x op).isSome || forfeits x h) := by
  cases op with
  | take => cases ht
  | _ => simp [forfeits, pops]

/-- An operation pops the head of the ready list or keeps its order. Who keeps a place there after
it had one before it, or enters now. -/
theorem line_apply (hn : s.ready.Nodup) (hp : op ≠ .purge) (h : List (Space × StoreOp)) :
    (s.popped? op).toList ++ (s.apply op).2.ready.filter (fun x => !forfeits x h) =
      s.ready.filter (fun x => !forfeits x ((s, op) :: h)) ++
        (s.entered op).filter fun x => !forfeits x h := by
  cases ht : op.isTake with
  | false =>
    rw [popped?_of_not_take ht, ready_apply hp ht, List.filter_append, List.filter_filter]
    simp only [forfeits_of_not_take ht, Option.toList_none, List.nil_append]
    congr 2
    funext x
    cases s.rescheduled? x op <;> simp
  | true =>
    obtain ⟨retry, cap, now, rfl⟩ := StoreOp.isTake_iff.mp ht
    have hready : (s.apply (.take retry cap now)).2.ready = s.ready.tail := ready_takeOne
    rw [hready]
    simp only [forfeits_take, popped?, entered, List.filter_nil, List.append_nil]
    cases hs : s.ready with
    | nil => rfl
    | cons y rest =>
      have hy : s.pops y (.take retry cap now) = true := by simp [pops, hs]
      have hrest : ∀ x ∈ rest, s.pops x (.take retry cap now) = false := by
        intro x hx
        have hne : y ≠ x := fun he => (List.nodup_cons.mp (hs ▸ hn)).1 (he ▸ hx)
        simp [pops, hs, hne]
      rw [List.filter_cons_of_pos (by simp [hy])]
      refine congrArg (y :: ·) (List.filter_congr fun x hx => ?_)
      rw [hrest x hx, Bool.not_false, Bool.true_and]

end Step

section Runs

variable {ops : List StoreOp}

/-- The ready list never holds an id twice in the course of these operations. -/
def Single (s : Space) (ops : List StoreOp) : Prop := ∀ n, (s.run (ops.take n)).ready.Nodup

theorem Single.head (h : s.Single ops) : s.ready.Nodup := h 0

theorem Single.tail (h : s.Single (op :: ops)) : (s.apply op).2.Single ops := fun n => h (n + 1)

/-- What has been popped and what is still waiting is what was waiting at first and what has entered
since, in this order, but for those that have forfeited their place. -/
theorem popped_append_ready (hn : s.Single ops) (hp : .purge ∉ ops) :
    popped (s.history ops) ++ (s.run ops).ready =
      s.ready.filter (fun x => !forfeits x (s.history ops)) ++ entries (s.history ops) := by
  induction ops generalizing s with
  | nil => simp [popped, entries, history, forfeits]
  | cons op ops ih =>
    obtain ⟨hop, hops⟩ := not_or.mp (List.mem_cons.not.mp hp)
    have hline := line_apply hn.head (Ne.symm hop) ((s.apply op).2.history ops)
    have hpopped : popped (s.history (op :: ops)) =
        (s.popped? op).toList ++ popped ((s.apply op).2.history ops) := by
      rw [history, popped, popped, List.filterMap_cons]
      cases s.popped? op <;> rfl
    calc popped (s.history (op :: ops)) ++ ((s.apply op).2.run ops).ready
      _ = (s.popped? op).toList ++
          (popped ((s.apply op).2.history ops) ++ ((s.apply op).2.run ops).ready) := by
        rw [hpopped, List.append_assoc]
      _ = ((s.popped? op).toList ++ (s.apply op).2.ready.filter
            fun x => !forfeits x ((s.apply op).2.history ops)) ++
          entries ((s.apply op).2.history ops) := by
        rw [ih hn.tail hops, List.append_assoc]
      _ = _ := by
        rw [hline, List.append_assoc]
        rfl

theorem history_drop (n : Nat) :
    (s.history ops).drop n = (s.run (ops.take n)).history (ops.drop n) := by
  induction n generalizing s ops with
  | zero => rfl
  | succ n ih =>
    cases ops with
    | nil => rfl
    | cons op ops => exact ih

theorem getElem?_history (n : Nat) :
    (s.history ops)[n]? = ops[n]?.map fun op => (s.run (ops.take n), op) := by
  induction n generalizing s ops with
  | zero => cases ops <;> rfl
  | succ n ih =>
    cases ops with
    | nil => rfl
    | cons op ops => exact ih

end Runs

section Overtaking

variable {ops : List StoreOp} {n : Nat}

/-- The ids that enter at the step with this number. -/
def enteredAt (h : List (Space × StoreOp)) (n : Nat) : List String :=
  (h[n]?.map fun e => e.1.entered e.2).getD []

/-- The id that is popped at the step with this number. -/
def poppedAt? (h : List (Space × StoreOp)) (n : Nat) : Option String :=
  h[n]?.bind fun e => e.1.popped? e.2

/-- `a` is waiting, and `b` is not waiting before it. -/
def Ahead (s : Space) (a b : String) : Prop :=
  ∃ front back, s.ready = front ++ a :: back ∧ b ∉ front

theorem Ahead.not_pops (h : s.Ahead a b) (hne : a ≠ b) : s.popped? op ≠ some b := by
  obtain ⟨front, back, hs, hb⟩ := h
  cases op with
  | take retry cap now =>
    rw [popped?, hs]
    cases front with
    | nil => simpa using hne
    | cons y front =>
      intro (he : some y = some b)
      exact hb (Option.some.inj he ▸ List.mem_cons_self)
  | _ => nofun

theorem Ahead.apply (h : s.Ahead a b) (hp : op ≠ .purge) (ha : s.popped? op ≠ some a)
    (hr : s.rescheduled? a op = none) : (s.apply op).2.Ahead a b := by
  obtain ⟨front, back, hs, hb⟩ := h
  cases ht : op.isTake with
  | true =>
    obtain ⟨retry, cap, now, rfl⟩ := StoreOp.isTake_iff.mp ht
    have hready : (s.apply (.take retry cap now)).2.ready = s.ready.tail := ready_takeOne
    cases front with
    | nil => exact absurd (by rw [popped?, hs]; rfl) ha
    | cons y front =>
      refine ⟨front, back, ?_, fun hm => hb (List.mem_cons_of_mem y hm)⟩
      rw [hready, hs]
      rfl
  | false =>
    rw [Ahead, ready_apply hp ht, hs, List.filter_append, List.filter_cons_of_pos (by simp [hr]),
      List.append_assoc, List.cons_append]
    exact ⟨_, _, rfl, fun hm => hb (List.mem_filter.mp hm).1⟩

theorem forfeits_cons {h : List (Space × StoreOp)} (hf : forfeits a ((s, op) :: h) = false)
    (ha : s.popped? op ≠ some a) : s.rescheduled? a op = none ∧ forfeits a h = false := by
  have hp : s.pops a op = false := Bool.eq_false_iff.mpr fun h => ha (pops_iff.mp h)
  simpa [forfeits, hp] using hf

/-- Who is ahead and does not forfeit its place is popped first. -/
theorem Ahead.popped_first (h : s.Ahead a b) (hne : a ≠ b) (hp : .purge ∉ ops)
    (hf : forfeits a (s.history ops) = false) (hb : poppedAt? (s.history ops) n = some b) :
    ∃ m < n, poppedAt? (s.history ops) m = some a := by
  induction ops generalizing s n with
  | nil => cases hb
  | cons op ops ih =>
    obtain ⟨hop, hops⟩ := not_or.mp (List.mem_cons.not.mp hp)
    cases n with
    | zero => exact absurd hb (h.not_pops hne)
    | succ n =>
      by_cases ha : s.popped? op = some a
      · exact ⟨0, Nat.succ_pos n, ha⟩
      · obtain ⟨hr, hf⟩ := forfeits_cons hf ha
        obtain ⟨m, hm, hma⟩ := ih (h.apply (Ne.symm hop) ha hr) hops hf hb
        exact ⟨m + 1, Nat.succ_lt_succ hm, hma⟩

theorem popped_or_waiting (h : a ∈ s.ready) (hp : .purge ∉ ops)
    (hf : forfeits a (s.history ops) = false) (n : Nat) :
    (∃ m < n, poppedAt? (s.history ops) m = some a) ∨
      a ∈ (s.run (ops.take n)).ready ∧ forfeits a ((s.history ops).drop n) = false := by
  induction n generalizing s ops with
  | zero => exact .inr ⟨h, hf⟩
  | succ n ih =>
    cases ops with
    | nil => exact .inr ⟨h, rfl⟩
    | cons op ops =>
      obtain ⟨hop, hops⟩ := not_or.mp (List.mem_cons.not.mp hp)
      by_cases ha : s.popped? op = some a
      · exact .inl ⟨0, Nat.succ_pos n, ha⟩
      · obtain ⟨hr, hf⟩ := forfeits_cons hf ha
        have hready : a ∈ (s.apply op).2.ready := by
          cases ht : op.isTake with
          | true =>
            obtain ⟨retry, cap, now, rfl⟩ := StoreOp.isTake_iff.mp ht
            have hready : (s.apply (.take retry cap now)).2.ready = s.ready.tail := ready_takeOne
            cases hs : s.ready with
            | nil => rw [hs] at h; cases h
            | cons y rest =>
              rw [hready, hs]
              rw [hs] at h
              rcases List.mem_cons.mp h with rfl | h
              · exact absurd (by rw [popped?, hs]; rfl) ha
              · exact h
          | false =>
            rw [ready_apply (Ne.symm hop) ht]
            exact List.mem_append_left _ (List.mem_filter.mpr ⟨h, by simp [hr]⟩)
        rcases ih hready hops hf with ⟨m, hm, hma⟩ | hwait
        · exact .inl ⟨m + 1, Nat.succ_lt_succ hm, hma⟩
        · exact .inr hwait

theorem ahead_of_entered (hn : (s.apply op).2.ready.Nodup) (hp : op ≠ .purge)
    (ha : a ∈ s.ready) (hr : s.rescheduled? a op = none) (hb : b ∈ s.entered op) :
    a ≠ b ∧ (s.apply op).2.Ahead a b := by
  have ht := not_isTake_of_entered hb
  rw [ready_apply hp ht] at hn
  obtain ⟨-, -, hapart⟩ := List.nodup_append.mp hn
  have ha' : a ∈ s.ready.filter fun x => (s.rescheduled? x op).isNone :=
    List.mem_filter.mpr ⟨ha, by simp [hr]⟩
  refine ⟨hapart a ha' b hb, ?_⟩
  obtain ⟨front, back, hs⟩ := List.append_of_mem ha'
  rw [Ahead, ready_apply hp ht, hs, List.append_assoc, List.cons_append]
  exact ⟨front, _, rfl, fun hm => hapart b (hs ▸ List.mem_append_left _ hm) b hb rfl⟩

theorem ahead_of_entered_together (hn : (s.apply op).2.ready.Nodup) (hp : op ≠ .purge)
    (h : [a, b].Sublist (s.entered op)) : a ≠ b ∧ (s.apply op).2.Ahead a b := by
  have ht := not_isTake_of_entered (h.mem (List.mem_cons_self : a ∈ [a, b]))
  rw [ready_apply hp ht] at hn
  obtain ⟨-, he, hapart⟩ := List.nodup_append.mp hn
  have hne : a ≠ b := by simpa using h.nodup he
  obtain ⟨early, late, hs, ha, hb⟩ := List.cons_sublist_iff.mp h
  obtain ⟨front, back, rfl⟩ := List.append_of_mem ha
  have hb : b ∈ late := List.singleton_sublist.mp hb
  rw [hs] at he hapart
  refine ⟨hne, s.ready.filter (fun x => (s.rescheduled? x op).isNone) ++ front, back ++ late,
    ?_, ?_⟩
  · rw [ready_apply hp ht, hs]
    simp
  · intro hm
    rcases List.mem_append.mp hm with hm | hm
    · exact hapart b hm b (List.mem_append_right _ hb) rfl
    · exact (List.nodup_append.mp he).2.2 b (List.mem_append_left _ hm) b hb rfl

theorem mem_enteredAt_iff {n : Nat} : x ∈ enteredAt (s.history ops) n ↔
    ∃ op, ops[n]? = some op ∧ x ∈ (s.run (ops.take n)).entered op := by
  rw [enteredAt, getElem?_history]
  cases ops[n]? <;> simp

theorem run_take_succ (h : ops[n]? = some op) :
    s.run (ops.take (n + 1)) = ((s.run (ops.take n)).apply op).2 := by
  rw [List.take_add_one, h, Option.toList_some, run_concat]

theorem poppedAt?_drop (h : List (Space × StoreOp)) (k n : Nat) :
    poppedAt? (h.drop k) n = poppedAt? h (k + n) := by
  rw [poppedAt?, List.getElem?_drop]
  rfl

theorem popped_before {i j : Nat} (hs : s.Single ops) (hp : .purge ∉ ops)
    (ha : a ∈ enteredAt (s.history ops) i) (hb : b ∈ enteredAt (s.history ops) j)
    (hij : i < j ∨ i = j ∧ [a, b].Sublist (enteredAt (s.history ops) i))
    (hf : forfeits a ((s.history ops).drop (i + 1)) = false) (hjn : j < n)
    (hpop : poppedAt? (s.history ops) n = some b) :
    ∃ m, i < m ∧ m < n ∧ poppedAt? (s.history ops) m = some a := by
  obtain ⟨op₁, hop₁, ha⟩ := mem_enteredAt_iff.mp ha
  obtain ⟨op₂, hop₂, hb⟩ := mem_enteredAt_iff.mp hb
  have hne : ∀ {op}, op ∈ ops → op ≠ .purge := fun hm he => hp (he ▸ hm)
  have hdrop : ∀ k, .purge ∉ ops.drop k := fun k hm => hp (List.mem_of_mem_drop hm)
  have hj : ((s.run (ops.take j)).apply op₂).2.ready.Nodup := run_take_succ hop₂ ▸ hs (j + 1)
  -- once `b` has entered behind `a`, it is popped behind it
  have hlast : a ≠ b → ((s.run (ops.take j)).apply op₂).2.Ahead a b →
      forfeits a ((s.history ops).drop (j + 1)) = false →
      ∃ m, j < m ∧ m < n ∧ poppedAt? (s.history ops) m = some a := by
    intro hab hahead hf
    have hpop' : poppedAt? ((s.history ops).drop (j + 1)) (n - (j + 1)) = some b := by
      rwa [poppedAt?_drop, show j + 1 + (n - (j + 1)) = n by omega]
    rw [history_drop] at hf hpop'
    rw [← run_take_succ hop₂] at hahead
    obtain ⟨m, hm, hma⟩ := hahead.popped_first hab (hdrop _) hf hpop'
    rw [← history_drop, poppedAt?_drop] at hma
    exact ⟨j + 1 + m, by omega, by omega, hma⟩
  rcases hij with hlt | ⟨rfl, htogether⟩
  · have hready : a ∈ (s.run (ops.take (i + 1))).ready := by
      have ht := not_isTake_of_entered ha
      rw [run_take_succ hop₁, ready_apply (hne (List.mem_of_getElem? hop₁)) ht]
      exact List.mem_append_right _ ha
    have hwait := popped_or_waiting hready (hdrop _) (history_drop _ ▸ hf) (j - (i + 1))
    rw [← history_drop, List.drop_drop, ← run_append, ← List.take_add,
      show i + 1 + (j - (i + 1)) = j by omega] at hwait
    rcases hwait with ⟨m, hm, hma⟩ | ⟨hready, hf⟩
    · rw [poppedAt?_drop] at hma
      exact ⟨i + 1 + m, by omega, by omega, hma⟩
    · have hcons : (s.history ops).drop j =
          (s.run (ops.take j), op₂) :: (s.history ops).drop (j + 1) := by
        refine List.drop_eq_getElem?_toList_append.trans ?_
        rw [getElem?_history, hop₂]
        rfl
      rw [hcons] at hf
      have hpop : (s.run (ops.take j)).popped? op₂ ≠ some a := by
        rw [popped?_of_not_take (not_isTake_of_entered hb)]
        nofun
      obtain ⟨hr, hf⟩ := forfeits_cons hf hpop
      obtain ⟨hab, hahead⟩ := ahead_of_entered hj (hne (List.mem_of_getElem? hop₂)) hready hr hb
      obtain ⟨m, hm, hmn, hma⟩ := hlast hab hahead hf
      exact ⟨m, by omega, hmn, hma⟩
  · rw [enteredAt, getElem?_history, hop₂] at htogether
    obtain ⟨hab, hahead⟩ :=
      ahead_of_entered_together hj (hne (List.mem_of_getElem? hop₂)) htogether
    exact hlast hab hahead hf

end Overtaking

section Promotion

/-- Of two entries the earlier one comes first, and of two for the same time the one whose id has
the lesser bytes. -/
def Precedes (e f : Score × String) : Prop :=
  e.1 < f.1 ∨ e.1 = f.1 ∧ Utf8.encode e.2 < Utf8.encode f.2

theorem precedes_of_order {e f : Score × String} (h : Score.order e f = .lt) : Precedes e f := by
  have h : (compare e.1 f.1).then (compare e.2 f.2) = .lt := h
  rcases Ordering.then_eq_lt.mp h with h | ⟨h, h'⟩
  · exact .inl (Std.compare_eq_lt.mp h)
  · exact .inr ⟨Std.LawfulEqOrd.eq_of_compare h, Utf8.encode_lt (compareOfLessAndEq_eq_lt.mp h')⟩

theorem pairwise_dueEntries {now : Time} {limit : Nat} :
    (s.dueEntries now limit).Pairwise Precedes :=
  ((ExtTreeSet.ordered_toList.imp precedes_of_order).sublist (List.takeWhile_sublist _)).sublist
    (List.take_sublist _ _)

end Promotion

end Space

namespace Store

variable {k : Keys} {ops : List StoreOp}

open Space (popped entries enteredAt poppedAt? forfeits Precedes)

theorem single_of_fresh (hf : Fresh ops) (hr : ∀ op ∈ ops, op.isRaw = false) :
    Space.empty.Single ops := by
  intro n
  have hr' : ∀ op ∈ ops.take n, op.isRaw = false := fun op h => hr op (List.mem_of_mem_take h)
  have hf' : Fresh (ops.take n) := by
    rw [Fresh, ← List.take_append_drop n ops, List.flatMap_append] at hf
    exact (List.nodup_append.mp hf).1
  have h := (placed_of_fresh_run (k := .ofName "") hf' (rawOverStored_of_unraw hr')).1
  rw [space_run, space_empty] at h
  exact h.nodup_ready

/-- Take any run in which each message has an id of its own, and in which no row is written past
the encoding and nothing is purged. The ready list changes in three ways only: ids enter at its end,
its head is popped, and what is set anew is dropped. What has been popped and what is still ready
are together the ids that have entered, in the order in which they did, but for those that were set
anew before they were popped. Those that a promotion moves enter by their due times and then by
their bytes. So of two ids the one that entered first is popped first, unless it is set anew
meanwhile. -/
theorem popped_in_order {ops : List (Keys × StoreOp)} (hf : Fresh (opsOn k ops))
    (hr : ∀ op ∈ opsOn k ops, op.isRaw = false ∧ op ≠ .purge) :
    let h := empty.history k ops
    (∀ s op, (s, op) ∈ h → (s.popped? op).toList ++ (s.apply op).2.ready =
      s.ready.filter (fun x => (s.rescheduled? x op).isNone) ++ s.entered op) ∧
    popped h ++ ((empty.runAll ops).space k).ready = entries h ∧
    (∀ s now limit, (s, .promote now limit) ∈ h → (s.dueEntries now limit).Pairwise Precedes ∧
      ∀ t x, (t, x) ∈ s.dueEntries now limit → s.score? x = some t ∧ t ≤ now.millis) ∧
    ∀ i j n a b, a ∈ enteredAt h i → b ∈ enteredAt h j →
      (i < j ∨ i = j ∧ [a, b].Sublist (enteredAt h i)) → forfeits a (h.drop (i + 1)) = false →
      j < n → poppedAt? h n = some b → ∃ m, i < m ∧ m < n ∧ poppedAt? h m = some a := by
  intro h
  have hp : .purge ∉ opsOn k ops := fun hm => (hr _ hm).2 rfl
  have hs : Space.empty.Single (opsOn k ops) := single_of_fresh hf fun op hm => (hr op hm).1
  have hh : h = Space.empty.history (opsOn k ops) := by rw [← space_empty, ← history_eq]
  have hmem : ∀ {s op}, (s, op) ∈ h → ∃ ops₁, op ∈ opsOn k ops ∧ s = Space.empty.run ops₁ := by
    intro s op hm
    rw [hh] at hm
    obtain ⟨before, after, he⟩ := List.append_of_mem hm
    obtain ⟨ops₁, ops₂, hops, rfl, -⟩ := Space.of_history_eq he
    exact ⟨ops₁, by rw [hops]; simp, rfl⟩
  refine ⟨?_, ?_, ?_, ?_⟩
  · intro s op hm
    obtain ⟨-, hop, -⟩ := hmem hm
    exact Space.popped?_append_ready (hr op hop).2
  · have hready := Space.popped_append_ready hs hp
    rw [space_runAll, space_empty, hh]
    exact hready
  · intro s now limit hm
    refine ⟨Space.pairwise_dueEntries, fun t x he => ?_⟩
    obtain ⟨ops₁, -, rfl⟩ := hmem hm
    have hi : (Space.empty.run ops₁).Indexed := Space.indexed_empty.run ops₁
    exact ⟨(hi t x).mp (Space.mem_schedule_of_mem_dueEntries he), Space.due_le_of_mem_dueEntries he⟩
  · intro i j n a b ha hb hij hforfeits hjn hpop
    rw [hh] at ha hb hij hforfeits hpop ⊢
    exact Space.popped_before hs hp ha hb hij hforfeits hjn hpop

/-- A run of two queues. In the first `b` and `c` enter together behind `a`, which is set anew and
enters once more, and `b` is committed while it waits. -/
def lineRun : List (Keys × StoreOp) :=
  [(.ofName "q", .produce ⟨"c", [3], .epoch, some .latest, none, 0⟩ .epoch),
    (.ofName "q", .produce ⟨"b", [2], .epoch, some .latest, none, 0⟩ .epoch),
    (.ofName "other", .produce ⟨"b", [9], .epoch, none, none, 0⟩ .epoch),
    (.ofName "q", .produce ⟨"a", [1], .epoch, none, none, 0⟩ .epoch),
    (.ofName "q", .promote .latest 2), (.ofName "q", .reschedule "a" .latest),
    (.ofName "q", .commit "b"), (.ofName "q", .take (.ofMillis 5) 2 .latest),
    (.ofName "other", .take (.ofMillis 5) 2 .latest),
    (.ofName "q", .take (.ofMillis 5) 2 .latest), (.ofName "q", .promote .latest 2)]

theorem popped_in_order_anew : Fresh (opsOn (.ofName "q") lineRun) ∧
    (∀ op ∈ opsOn (.ofName "q") lineRun, op.isRaw = false ∧ op ≠ .purge) ∧
    let h := empty.history (.ofName "q") lineRun
    popped h ++ ((empty.runAll lineRun).space (.ofName "q")).ready = ["b", "c", "a"] ∧
    poppedAt? h 7 = some "c" ∧ ∃ m, 3 < m ∧ m < 7 ∧ poppedAt? h m = some "b" := by
  have hf : Fresh (opsOn (.ofName "q") lineRun) := by unfold Fresh; decide +kernel
  have hr : ∀ op ∈ opsOn (.ofName "q") lineRun, op.isRaw = false ∧ op ≠ .purge := by
    decide +kernel
  obtain ⟨-, hline, -, hbefore⟩ := popped_in_order hf hr
  have hentries : entries (empty.history (.ofName "q") lineRun) = ["b", "c", "a"] := by
    decide +kernel
  have hlast : poppedAt? (empty.history (.ofName "q") lineRun) 7 = some "c" := by decide +kernel
  refine ⟨hf, hr, hline.trans hentries, hlast, ?_⟩
  exact hbefore 3 3 7 "b" "c" (by decide +kernel) (by decide +kernel)
    (.inr ⟨rfl, by decide +kernel⟩) (by decide +kernel) (by decide) hlast

end Store

end DelayedQueue
