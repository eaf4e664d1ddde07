import DelayedQueue.Proofs.Store.Line

/-! # Promotion in batches

What is left of the schedule after a promotion is the schedule without the entries at its front that
were moved. So a promotion that found as many entries as it had room for, followed by another one
that is not earlier, moves what one promotion with the room of both would have moved, in the same
order.
-/

namespace DelayedQueue

open Std (ExtTreeMap ExtTreeSet)

namespace Space

variable {s : Space} {x : String} {t t' now : Time} {limit more : Nat} {e : Score × String}

/-- How many pending ids have fallen due. -/
def backlog (s : Space) (now : Time) : Nat := s.pending.toList.countP fun e => e.2 ≤ now.millis

section Schedule

theorem length_filter_schedule (h : s.Indexed) :
    (s.schedule.toList.filter fun e => e.1 ≤ now.millis).length = s.backlog now := by
  rw [← List.countP_eq_length_filter, ← h.perm.countP_eq, List.countP_map]
  rfl

theorem length_dueEntries (h : s.Indexed) :
    (s.dueEntries now limit).length = min limit (s.backlog now) := by
  rw [dueEntries, schedule_takeWhile, List.length_take, length_filter_schedule h]

theorem dueEntries_prefix : s.dueEntries now limit <+: s.schedule.toList :=
  (List.take_prefix _ _).trans (List.takeWhile_prefix _)

theorem toList_promoteDue : (s.promoteDue now limit).2.schedule.toList =
    s.schedule.toList.drop (s.dueEntries now limit).length := by
  obtain ⟨rest, hrest⟩ : s.dueEntries now limit <+: s.schedule.toList := dueEntries_prefix
  have hd {s : Space} : s.schedule.toList.Nodup :=
    ExtTreeSet.distinct_toList.imp fun {a b} h (he : a = b) => h (he ▸ Std.ReflCmp.compare_self)
  have hdisjoint := (List.nodup_append.mp (hrest ▸ hd)).2.2
  have hmem (e : Score × String) :
      e ∈ (s.promoteDue now limit).2.schedule.toList ↔ e ∈ rest := by
    rw [ExtTreeSet.mem_toList, promoteDue, mem_schedule_foldl_promoteEntry,
      ← ExtTreeSet.mem_toList, ← hrest, List.mem_append]
    constructor
    · rintro ⟨hn, he | he⟩
      · exact absurd he hn
      · exact he
    · exact fun he => ⟨fun hdue => hdisjoint e hdue e he rfl, .inr he⟩
  have hsorted : rest.Pairwise fun a b => Score.order a b = .lt :=
    ExtTreeSet.ordered_toList.sublist (hrest ▸ List.sublist_append_right _ _)
  have hperm : (s.promoteDue now limit).2.schedule.toList.Perm rest :=
    (List.perm_ext_iff_of_nodup hd (hd.sublist (hrest ▸ List.sublist_append_right _ _))).mpr hmem
  rw [← hrest, List.drop_left]
  refine hperm.eq_of_pairwise (fun a b _ _ hab hba => ?_) ExtTreeSet.ordered_toList hsorted
  have hswap : Score.order b a = (Score.order a b).swap := Std.OrientedCmp.eq_swap
  rw [hswap, hab] at hba
  cases hba

/-- If a promotion was full, what a later one moves comes next in the schedule. -/
theorem dueEntries_add (hle : t.millis ≤ t'.millis)
    (hfull : (s.dueEntries t limit).length = limit) :
    s.dueEntries t' (limit + more) =
      s.dueEntries t limit ++ (s.promoteDue t limit).2.dueEntries t' more := by
  obtain ⟨rest, hrest⟩ : s.dueEntries t limit <+: s.schedule.toList := dueEntries_prefix
  have hdue : ∀ e ∈ s.dueEntries t limit, decide (e.1 ≤ t'.millis) = true := fun e he =>
    decide_eq_true (Int.le_trans (due_le_of_mem_dueEntries he) hle)
  have hleft : (s.promoteDue t limit).2.schedule.toList = rest := by
    rw [toList_promoteDue, ← hrest, List.drop_left]
  calc s.dueEntries t' (limit + more)
    _ = ((s.dueEntries t limit ++ rest).takeWhile fun e => e.1 ≤ t'.millis).take
        (limit + more) := by rw [hrest]; rfl
    _ = s.dueEntries t limit ++ (rest.takeWhile fun e => e.1 ≤ t'.millis).take more := by
      rw [List.takeWhile_append_of_pos hdue]
      nth_rewrite 1 [← hfull]
      rw [List.take_length_add_append]
    _ = _ := by rw [dueEntries.eq_1 (s.promoteDue t limit).2, hleft]

end Schedule

section Batches

theorem backlog_le_size : s.backlog now ≤ s.pending.size := by
  rw [← ExtTreeMap.length_toList]
  exact List.countP_le_length

theorem dueEntries_of_backlog_le (h : s.Indexed) (hl : s.backlog now ≤ limit)
    (hm : s.backlog now ≤ more) : s.dueEntries now limit = s.dueEntries now more := by
  have hall {n : Nat} (hn : s.backlog now ≤ n) :
      s.dueEntries now n = s.schedule.toList.filter fun e => e.1 ≤ now.millis := by
    rw [dueEntries, schedule_takeWhile]
    exact List.take_of_length_le (by rwa [length_filter_schedule h])
  rw [hall hl, hall hm]

theorem lt_of_score?_promoteDue (h : s.Indexed) (hl : s.pending.size ≤ limit) {due : Score}
    (hx : (s.promoteDue now limit).2.score? x = some due) : now.millis < due := by
  rw [score?_promoteDue] at hx
  split at hx
  · cases hx
  · next hn =>
    refine Int.not_le.mp fun hle => hn ?_
    exact List.mem_map_of_mem (a := (due, x)) ((mem_dueEntries_iff h hl).mpr ⟨hx, hle⟩)

/-- A full promotion and a later one do what one promotion with the room of both does. -/
theorem promoteDue_add (hle : t.millis ≤ t'.millis)
    (hfull : (s.dueEntries t limit).length = limit) :
    ((s.promoteDue t limit).2.promoteDue t' more).2 = (s.promoteDue t' (limit + more)).2 := by
  rw [promoteDue.eq_1 s t', dueEntries_add hle hfull, List.foldl_append]
  rfl

end Batches

end Space

namespace Store

variable {s : Store} {k : Keys} {t t' : Time} {limit more : Nat}

theorem promoteDue_fst : (s.promoteDue k t limit).1 = ((s.space k).dueEntries t limit).length :=
  onSpace_fst fun sp => sp.promoteDue t limit

theorem space_promoteDue :
    (s.promoteDue k t limit).2.space k = ((s.space k).promoteDue t limit).2 :=
  space_apply (.promote t limit)

theorem promoteDue_add (hle : t.millis ≤ t'.millis)
    (hfull : ((s.space k).dueEntries t limit).length = limit) :
    ((s.promoteDue k t limit).2.promoteDue k t' more).2 =
      (s.promoteDue k t' (limit + more)).2 := by
  have htwo : ((s.apply k (.promote t limit)).2.apply k (.promote t' more)).2 = _ :=
    apply_apply_snd nofun nofun
  have hone : (s.apply k (.promote t' (limit + more))).2 = _ := apply_snd nofun
  refine htwo.trans (Eq.trans ?_ hone.symm)
  simp only [Space.apply, Space.promoteDue_add hle hfull]
  rfl

/-- It is what a promotion moves that matters to the store, not the limit. -/
theorem promoteDue_congr (h : (s.space k).dueEntries t limit = (s.space k).dueEntries t more) :
    (s.promoteDue k t limit).2 = (s.promoteDue k t more).2 := by
  have hspace : ((s.space k).promoteDue t limit).2 = ((s.space k).promoteDue t more).2 :=
    congrArg (List.foldl Space.promoteEntry (s.space k)) h
  have hsnd (n : Nat) : (s.apply k (.promote t n)).2 = _ := apply_snd nofun
  refine (hsnd limit).trans (Eq.trans ?_ (hsnd more).symm)
  simp only [Space.apply, hspace]
  rfl

end Store

end DelayedQueue
