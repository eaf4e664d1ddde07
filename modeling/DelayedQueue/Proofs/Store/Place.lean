import Mathlib.Data.List.Nodup
import Mathlib.Data.List.Count
import DelayedQueue.Store.Basic

/-! # The place of one id

An id is seen in a space in three ways: how often it waits in the ready list, when it falls
due, and which row it has. Every operation changes the place of the id it is about and of no
other one; a promotion moves the ids that it finds due, and the two pending indexes agree
throughout.
-/

namespace DelayedQueue

open Std (ExtTreeMap ExtTreeSet)

instance : Std.LawfulEqCmp Score.order where
  eq_of_compare {a b} h := by
    obtain ⟨h₁, h₂⟩ := compareLex_eq_eq.mp h
    exact Prod.ext (Std.LawfulEqCmp.eq_of_compare h₁) (Std.LawfulEqCmp.eq_of_compare h₂)

/-- Where an id stands in a space. -/
@[ext] structure Place where
  /-- How often it waits in the ready list. -/
  copies : Nat
  due : Option Score
  row : Option Bytes

/-- The place of an id that a space has nothing of. -/
def Place.vacant : Place := ⟨0, none, none⟩

namespace Space

variable {s : Space} {x id : String} {t : Score}

def place (s : Space) (x : String) : Place := ⟨s.ready.count x, s.score? x, s.row? x⟩

section Views

@[simp] theorem ready_disarm : (s.disarm id).ready = s.ready := by
  unfold disarm; split <;> rfl

@[simp] theorem rows_disarm : (s.disarm id).rows = s.rows := by
  unfold disarm; split <;> rfl

theorem score?_disarm : (s.disarm id).score? x = if id = x then none else s.score? x := by
  unfold disarm score?
  split
  case h_1 h => split <;> simp_all
  case h_2 h => simp [ExtTreeMap.getElem?_erase]

@[simp] theorem ready_arm : (s.arm id t).ready = s.ready := ready_disarm

theorem score?_arm : (s.arm id t).score? x = if id = x then some t else s.score? x := by
  have h : (s.arm id t).score? x = if id = x then some t else (s.disarm id).score? x := by
    simp [arm, score?, ExtTreeMap.getElem?_insert]
  rw [h, score?_disarm]
  split <;> rfl

@[simp] theorem row?_disarm : (s.disarm id).row? x = s.row? x := by simp [row?]
@[simp] theorem row?_arm : (s.arm id t).row? x = s.row? x := row?_disarm

theorem row?_putRow {row : Bytes} :
    (s.putRow id row).row? x = if id = x then some row else s.row? x := by
  simp [putRow, row?, ExtTreeMap.getElem?_insert]

theorem row?_dropRow : (s.dropRow id).row? x = if id = x then none else s.row? x := by
  simp [dropRow, row?, ExtTreeMap.getElem?_erase]

end Views

section Indexes

/-- The pending ids are indexed alike by id and by due time. -/
def Indexed (s : Space) : Prop := ∀ t x, (t, x) ∈ s.schedule ↔ s.score? x = some t

theorem Indexed.setReady (h : s.Indexed) (ready : List String) :
    ({ s with ready } : Space).Indexed := h

theorem Indexed.putRow (h : s.Indexed) (id : String) (row : Bytes) : (s.putRow id row).Indexed := h

theorem Indexed.dropRow (h : s.Indexed) (id : String) : (s.dropRow id).Indexed := h

theorem indexed_empty : empty.Indexed := by
  intro t x
  simp [empty, score?]

theorem Indexed.disarm (h : s.Indexed) (id : String) : (s.disarm id).Indexed := by
  intro t x
  rw [score?_disarm]
  unfold Space.disarm
  split
  case h_1 hn =>
    rw [h t x]
    split
    · next he => simp [← he, score?, hn]
    · rfl
  case h_2 due hd =>
    simp only [ExtTreeSet.mem_erase, h t x]
    split
    · next he =>
      subst he
      have ht : s.score? id = some t → due = t := fun h' => Option.some.inj (hd.symm.trans h')
      simpa [Std.LawfulEqCmp.compare_eq_iff_eq] using fun hne h' => hne (ht h')
    · next he => simp [Std.LawfulEqCmp.compare_eq_iff_eq, he]

theorem Indexed.arm (h : s.Indexed) (id : String) (due : Score) : (s.arm id due).Indexed := by
  intro t x
  have hd := h.disarm id t x
  rw [score?_disarm] at hd
  rw [score?_arm]
  simp only [Space.arm, ExtTreeSet.mem_insert, Std.LawfulEqCmp.compare_eq_iff_eq, hd]
  split
  · next he => subst he; simp
  · next he => simp [he]

end Indexes

section Promotion

variable {now : Time} {limit : Nat} {e : Score × String} {due : List (Score × String)}

theorem mem_schedule_of_mem_dueEntries (h : e ∈ s.dueEntries now limit) : e ∈ s.schedule :=
  ExtTreeSet.mem_toList.mp ((List.takeWhile_sublist _).mem (List.mem_of_mem_take h))

theorem nodup_dueEntries : (s.dueEntries now limit).Nodup := by
  have hd : s.schedule.toList.Nodup :=
    ExtTreeSet.distinct_toList.imp fun {a b} h (he : a = b) =>
      h (he ▸ Std.ReflCmp.compare_self)
  exact (hd.sublist (List.takeWhile_sublist _)).sublist (List.take_sublist _ _)

theorem Indexed.nodup_due (h : s.Indexed) : ((s.dueEntries now limit).map Prod.snd).Nodup := by
  refine nodup_dueEntries.map_on ?_
  rintro ⟨t, x⟩ ht ⟨u, _⟩ hu rfl
  have he := (h t x).mp (mem_schedule_of_mem_dueEntries ht)
  rw [(h u x).mp (mem_schedule_of_mem_dueEntries hu)] at he
  rw [Option.some.inj he]

theorem ready_foldl_promoteEntry :
    (due.foldl promoteEntry s).ready = s.ready ++ due.map Prod.snd := by
  induction due generalizing s with
  | nil => simp
  | cons e due ih => simp [ih, promoteEntry]

theorem rows_foldl_promoteEntry : (due.foldl promoteEntry s).rows = s.rows := by
  induction due generalizing s with
  | nil => rfl
  | cons e due ih => exact ih

theorem score?_foldl_promoteEntry : (due.foldl promoteEntry s).score? x =
    if x ∈ due.map Prod.snd then none else s.score? x := by
  induction due generalizing s with
  | nil => simp
  | cons e due ih =>
    have he : (s.promoteEntry e).score? x = if e.2 = x then none else s.score? x := by
      simp [promoteEntry, score?, ExtTreeMap.getElem?_erase]
    rw [List.foldl_cons, ih, he]
    simp only [List.map_cons, List.mem_cons]
    grind

theorem mem_schedule_foldl_promoteEntry :
    e ∈ (due.foldl promoteEntry s).schedule ↔ e ∉ due ∧ e ∈ s.schedule := by
  induction due generalizing s with
  | nil => simp
  | cons d due ih =>
    rw [List.foldl_cons, ih]
    have hc : ∀ a b, Score.order a b = .eq ↔ a = b :=
      fun _ _ => Std.LawfulEqCmp.compare_eq_iff_eq
    simp only [promoteEntry, ExtTreeSet.mem_erase, List.mem_cons, not_or, ne_eq, hc]
    grind

theorem ready_promoteDue : (s.promoteDue now limit).2.ready =
    s.ready ++ (s.dueEntries now limit).map Prod.snd := ready_foldl_promoteEntry

theorem row?_promoteDue : (s.promoteDue now limit).2.row? x = s.row? x := by
  simp only [row?, promoteDue, rows_foldl_promoteEntry]

theorem score?_promoteDue : (s.promoteDue now limit).2.score? x =
    if x ∈ (s.dueEntries now limit).map Prod.snd then none else s.score? x :=
  score?_foldl_promoteEntry

theorem Indexed.promoteDue (h : s.Indexed) : (s.promoteDue now limit).2.Indexed := by
  intro t x
  rw [score?_promoteDue]
  simp only [Space.promoteDue, mem_schedule_foldl_promoteEntry, h t x]
  -- an entry of `x` among those due is the only entry that `x` has
  have hx : ∀ u, (u, x) ∈ s.dueEntries now limit → s.score? x = some u := fun u hu =>
    (h u x).mp (mem_schedule_of_mem_dueEntries hu)
  split
  · next hm =>
    obtain ⟨⟨u, y⟩, hu, rfl⟩ := List.mem_map.mp hm
    simp only [reduceCtorEq, iff_false, not_and]
    intro hn he
    exact hn (Option.some.inj (he.symm.trans (hx u hu)) ▸ hu)
  · next hm =>
    have hn : (t, x) ∉ s.dueEntries now limit := fun hu => hm (List.mem_map_of_mem hu)
    simp [hn]

end Promotion

section Effects

variable {m : Message} {now : Time} {retry : Duration} {cap : UInt64} {limit : Nat} {row : Bytes}

theorem place_empty : empty.place x = .vacant := by
  simp [place, empty, score?, row?, Place.vacant]

theorem place_putRow_self :
    (s.putRow id row).place id = ⟨(s.place id).copies, (s.place id).due, some row⟩ := by
  ext1
  · rfl
  · rfl
  · exact row?_putRow.trans (if_pos rfl)

theorem place_putRow_of_ne (h : id ≠ x) : (s.putRow id row).place x = s.place x := by
  ext1
  · rfl
  · rfl
  · exact row?_putRow.trans (if_neg h)

theorem place_produce_self : (s.produce m now).place m.id =
    if m.isImmediate now then ⟨(s.place m.id).copies + 1, (s.place m.id).due, some (Row.encode m)⟩
    else ⟨(s.place m.id).copies, m.deliverAt.map Time.millis, some (Row.encode m)⟩ := by
  have hr : (s.putRow m.id (Row.encode m)).row? m.id = some (Row.encode m) :=
    row?_putRow.trans (if_pos rfl)
  have hc : (s.ready ++ [m.id]).count m.id = s.ready.count m.id + 1 := by simp
  unfold produce
  cases hd : m.deliverAt with
  | none =>
    have hi : m.isImmediate now = true := by simp [Message.isImmediate, hd]
    rw [if_pos hi]
    exact Place.ext hc rfl hr
  | some t =>
    by_cases hi : m.isImmediate now
    · simp only [if_pos hi]
      exact Place.ext hc rfl hr
    · simp only [if_neg hi]
      refine Place.ext ?_ (score?_arm.trans (if_pos rfl)) (row?_arm.trans hr)
      exact congrArg (List.count m.id) ready_arm

theorem row?_produce_self : (s.produce m now).row? m.id = some (Row.encode m) := by
  refine (congrArg Place.row place_produce_self).trans ?_
  split <;> rfl

theorem place_produce_of_ne (h : m.id ≠ x) : (s.produce m now).place x = s.place x := by
  have hp : (s.putRow m.id (Row.encode m)).place x = s.place x := place_putRow_of_ne h
  have hc : (s.ready ++ [m.id]).count x = s.ready.count x := by simp [h]
  unfold produce
  split
  · exact Place.ext hc rfl (congrArg Place.row hp :)
  · split
    · exact Place.ext hc rfl (congrArg Place.row hp :)
    · refine Place.ext ?_ (score?_arm.trans (if_neg h)) (row?_arm.trans (congrArg Place.row hp :))
      exact congrArg (List.count x) ready_arm

theorem place_commit_self : (s.commit id).2.place id = ⟨(s.place id).copies, none, none⟩ := by
  refine Place.ext ?_ (score?_disarm.trans (if_pos rfl)) (row?_dropRow.trans (if_pos rfl))
  exact congrArg (List.count id) ready_disarm

theorem place_commit_of_ne (h : id ≠ x) : (s.commit id).2.place x = s.place x := by
  refine Place.ext ?_ (score?_disarm.trans (if_neg h)) ?_
  · exact congrArg (List.count x) ready_disarm
  · exact (row?_dropRow.trans (if_neg h)).trans row?_disarm

/-- The row of a message that is made due at `t`. -/
def rescheduledRow (row : Bytes) (t : Time) : Bytes :=
  match Row.decode row with
  | .error _ => row
  | .ok m => Row.encode { m with deliverAt := some t }

theorem reschedule_of_none (h : s.row? id = none) : s.reschedule id now = (false, s) := by
  have h' : s.rows[id]? = none := h
  simp only [reschedule, h']

theorem reschedule_of_some (h : s.row? id = some row) : s.reschedule id now =
    (true, { s.putRow id (rescheduledRow row now) with
      ready := s.ready.filter (· != id) }.arm id now.millis) := by
  have h' : s.rows[id]? = some row := h
  have hp : s.putRow id row = s := by
    have hi : s.rows.insert id row = s.rows := by
      refine ExtTreeMap.ext_getElem? fun x => ?_
      rw [ExtTreeMap.getElem?_insert]
      split
      · next he => rw [← Std.LawfulEqCmp.eq_of_compare he, h']
      · rfl
    simp only [putRow, hi]
  unfold reschedule rescheduledRow
  rw [h']
  cases hd : Row.decode row with
  | error f => simp only [hd, hp]
  | ok m => simp only [hd, putRow]

theorem place_reschedule_self (h : s.row? id = some row) :
    (s.reschedule id now).2.place id =
      ⟨0, some now.millis, some (rescheduledRow row now)⟩ := by
  rw [reschedule_of_some h]
  refine Place.ext ?_ (score?_arm.trans (if_pos rfl)) (row?_arm.trans ?_)
  · refine (congrArg (List.count id) ready_arm).trans ?_
    simp [List.count_eq_zero]
  · exact row?_putRow.trans (if_pos rfl)

theorem place_reschedule_of_ne (h : id ≠ x) : (s.reschedule id now).2.place x = s.place x := by
  cases hr : s.row? id with
  | none => rw [reschedule_of_none hr]
  | some row =>
    rw [reschedule_of_some hr]
    refine Place.ext ?_ (score?_arm.trans (if_neg h)) (row?_arm.trans ?_)
    · refine (congrArg (List.count x) ready_arm).trans ?_
      exact List.count_filter (by simpa using Ne.symm h)
    · exact row?_putRow.trans (if_neg h)

theorem place_promoteDue (h : s.Indexed) : (s.promoteDue now limit).2.place x =
    if x ∈ (s.dueEntries now limit).map Prod.snd then
      ⟨(s.place x).copies + 1, none, (s.place x).row⟩ else s.place x := by
  have hc : (s.promoteDue now limit).2.ready.count x =
      s.ready.count x + ((s.dueEntries now limit).map Prod.snd).count x := by
    rw [ready_promoteDue, List.count_append]
  split
  · next hx =>
    refine Place.ext ?_ (score?_promoteDue.trans (if_pos hx)) row?_promoteDue
    exact hc.trans (by rw [List.count_eq_one_of_mem h.nodup_due hx]; rfl)
  · next hx =>
    refine Place.ext ?_ (score?_promoteDue.trans (if_neg hx)) row?_promoteDue
    exact hc.trans (by rw [List.count_eq_zero_of_not_mem hx]; rfl)

/-- What a take that pops `x` gives back, and where it leaves `x`. -/
inductive Pop (x : String) (retry : Duration) (cap : UInt64) (now : Time) (p : Place) :
    Take → Place → Prop

  | dangling : p.row = none → Pop x retry cap now p .empty ⟨p.copies - 1, none, none⟩

  | unreadable {row : Bytes} {f : Row.Fault} : p.row = some row → Row.decode row = .error f →
      Pop x retry cap now p (.taken row)
        ⟨p.copies - 1, some (Score.addMillis now.millis retry), some row⟩

  | exhausted {row : Bytes} {m : Message} : p.row = some row → Row.decode row = .ok m →
      cap ≤ m.deliveries → Pop x retry cap now p (.exhausted x m.deliveries)
        ⟨p.copies - 1, none, none⟩

  | delivered {row : Bytes} {m : Message} : p.row = some row → Row.decode row = .ok m →
      m.deliveries < cap →
      Pop x retry cap now p
        (.taken (Row.encode { m with deliveries := m.deliveries + 1, redeliverAt := some now }))
        ⟨p.copies - 1, some (Score.addMillis now.millis retry),
          some (Row.encode { m with deliveries := m.deliveries + 1, redeliverAt := some now })⟩

theorem Pop.congr {p p' q : Place} {k : Take} (h : Pop x retry cap now p k q) (he : p' = q) :
    Pop x retry cap now p k p' := he ▸ h

theorem Pop.copies_eq {p p' : Place} {k : Take} (h : Pop x retry cap now p k p') :
    p'.copies = p.copies - 1 := by
  cases h <;> rfl

theorem takeOne_of_nil (h : s.ready = []) : s.takeOne retry cap now = (.empty, s) := by
  unfold takeOne; rw [h]

theorem pop_of_head (retry : Duration) (cap : UInt64) (now : Time)
    (h : s.ready.head? = some x) :
    Pop x retry cap now (s.place x) (s.takeOne retry cap now).1
      ((s.takeOne retry cap now).2.place x) := by
  obtain ⟨rest, hr⟩ : ∃ rest, s.ready = x :: rest := by
    cases hs : s.ready <;> simp_all
  have hc : rest.count x = (s.place x).copies - 1 := by simp [place, hr]
  have hp : ∀ (s' : Space) (t : Option Score) (row : Option Bytes), s'.ready = rest →
      s'.score? x = t → s'.row? x = row → s'.place x = ⟨(s.place x).copies - 1, t, row⟩ :=
    fun _ _ _ h₁ h₂ h₃ => Place.ext ((congrArg _ h₁).trans hc) h₂ h₃
  unfold takeOne
  simp only [hr]
  split
  case h_1 hn =>
    exact (Pop.dangling hn).congr
      (hp _ none none ready_disarm (score?_disarm.trans (if_pos rfl)) (row?_disarm.trans hn))
  case h_2 row hrow =>
    split
    case h_1 f hf =>
      exact (Pop.unreadable hrow hf).congr
        (hp _ _ (some row) ready_arm (score?_arm.trans (if_pos rfl)) (row?_arm.trans hrow))
    case h_2 m hm =>
      split
      · next hle =>
        exact (Pop.exhausted hrow hm hle).congr
          (hp _ none none ready_disarm (score?_disarm.trans (if_pos rfl))
            (row?_disarm.trans (row?_dropRow.trans (if_pos rfl))))
      · next hlt =>
        exact (Pop.delivered hrow hm (Std.not_le.mp hlt)).congr
          (hp _ _ (some _) ready_arm (score?_arm.trans (if_pos rfl))
            (row?_arm.trans (row?_putRow.trans (if_pos rfl))))

theorem place_takeOne_of_ne (h : s.ready.head? ≠ some x) :
    (s.takeOne retry cap now).2.place x = s.place x := by
  cases hr : s.ready with
  | nil => rw [takeOne_of_nil hr]
  | cons id rest =>
    have hne : id ≠ x := by simpa [hr] using h
    have hc : rest.count x = s.ready.count x := by simp [hr, hne]
    have hp : ∀ {s' : Space}, s'.ready = rest → s'.score? x = s.score? x →
        s'.row? x = s.row? x → s'.place x = s.place x :=
      fun h₁ h₂ h₃ => Place.ext ((congrArg _ h₁).trans hc) h₂ h₃
    unfold takeOne
    simp only [hr]
    split
    · exact hp ready_disarm (score?_disarm.trans (if_neg hne)) row?_disarm
    · split
      · exact hp ready_arm (score?_arm.trans (if_neg hne)) row?_arm
      · split
        · exact hp ready_disarm (score?_disarm.trans (if_neg hne))
            (row?_disarm.trans (row?_dropRow.trans (if_neg hne)))
        · exact hp ready_arm (score?_arm.trans (if_neg hne))
            (row?_arm.trans (row?_putRow.trans (if_neg hne)))

end Effects

end Space

end DelayedQueue
