import Mathlib.Data.List.Induction
import DelayedQueue.Proofs.Store.Run

/-! # Placement

While every message has an id of its own, a stored id waits in exactly one of the ready list
and the pending set, and only there. An id can outlive its row in the ready list alone, and
only once it has been committed.
-/

namespace DelayedQueue

namespace Place

/-- The place of an id that is produced at most once. -/
structure Sound (p : Place) : Prop where
  once : p.copies ≤ 1
  apart : p.copies ≠ 0 → p.due = none
  covered : p.row ≠ none → p.copies ≠ 0 ∨ p.due ≠ none
  stored : p.due ≠ none → p.row ≠ none

theorem sound_vacant : vacant.Sound := by constructor <;> simp [vacant]

theorem sound_ready {row : Option Bytes} : (⟨1, none, row⟩ : Place).Sound := by
  constructor <;> simp

theorem sound_pending {t : Score} {row : Bytes} : (⟨0, some t, some row⟩ : Place).Sound := by
  constructor <;> simp

theorem Sound.copies_sub_one {p : Place} (h : p.Sound) : p.copies - 1 = 0 := by
  have := h.once; omega

/-- A sound place is vacant, in the ready list with or without a row, or pending with a row. -/
theorem Sound.cases {p : Place} (h : p.Sound) :
    p = vacant ∨ (∃ row, p = ⟨1, none, row⟩) ∨ ∃ t row, p = ⟨0, some t, some row⟩ := by
  obtain ⟨c, due, row⟩ := p
  obtain ⟨h₁, h₂, h₃, h₄⟩ := h
  simp only at h₁ h₂ h₃ h₄
  obtain rfl | rfl : c = 0 ∨ c = 1 := by omega
  · cases due with
    | none =>
      have hr : row = none := by simpa using h₃
      exact .inl (by rw [hr]; rfl)
    | some t =>
      obtain ⟨row, rfl⟩ := Option.ne_none_iff_exists'.mp (h₄ (by simp))
      exact .inr (.inr ⟨t, row, rfl⟩)
  · rw [h₂ (by simp)]
    exact .inr (.inl ⟨row, rfl⟩)

end Place

namespace Space

variable {s : Space} {x : String} {op : StoreOp} {retry : Duration} {cap : UInt64} {now : Time}

open Place (vacant)

theorem copies_ne_zero : (s.place x).copies ≠ 0 ↔ x ∈ s.ready := by
  simp [place, List.count_eq_zero]

theorem not_head_of_vacant (h : s.place x = vacant) : s.ready.head? ≠ some x := by
  intro hh
  have hm : x ∈ s.ready := List.mem_of_mem_head? hh
  exact copies_ne_zero.mpr hm (by rw [h]; rfl)

section Step

theorem vacant_apply (hi : s.Indexed) (hv : s.place x = vacant) (hn : x ∉ op.produced)
    (hw : ∀ row, op ≠ .putRow x row) : (s.apply op).2.place x = vacant := by
  have hp := effect_apply hi x op
  generalize (s.apply op).2.place x = p at hp ⊢
  cases hp with
  | spared => exact hv
  | readied h | delayed h => exact absurd (by simp [StoreOp.produced, h]) hn
  | popped hh => exact absurd hh (not_head_of_vacant hv)
  | committed => rw [hv]; rfl
  | rescheduled hr => rw [hv] at hr; cases hr
  | promoted hd => rw [hv] at hd; cases hd
  | purged => rfl
  | overwritten => exact absurd rfl (hw _)

theorem sound_pop {k : Take} {p p' : Place} (hp : p.Sound) (h : Pop x retry cap now p k p') :
    p'.Sound := by
  cases h with
  | dangling | exhausted => rw [hp.copies_sub_one]; exact Place.sound_vacant
  | unreadable | delivered => rw [hp.copies_sub_one]; exact Place.sound_pending

theorem sound_apply (hi : s.Indexed) (hs : (s.place x).Sound)
    (hn : x ∈ op.produced → s.place x = vacant)
    (hw : ∀ row, op = .putRow x row → (s.place x).row ≠ none) :
    ((s.apply op).2.place x).Sound := by
  have hp := effect_apply hi x op
  generalize (s.apply op).2.place x = p at hp ⊢
  cases hp with
  | spared => exact hs
  | readied h => rw [hn (by simp [StoreOp.produced, h])]; exact Place.sound_ready
  | delayed h => rw [hn (by simp [StoreOp.produced, h])]; exact Place.sound_pending
  | popped _ hp => exact sound_pop hs hp
  | committed => exact ⟨hs.once, fun _ => rfl, by simp, by simp⟩
  | rescheduled => exact Place.sound_pending
  | promoted hd =>
    obtain h | ⟨row, h⟩ | ⟨t, row, h⟩ := hs.cases <;> rw [h] at hd ⊢
    · cases hd
    · cases hd
    · exact Place.sound_ready
  | purged => exact Place.sound_vacant
  | overwritten => exact ⟨hs.once, hs.apart, fun _ => hs.covered (hw _ rfl), by simp⟩

theorem backed_apply (hi : s.Indexed) (hs : (s.place x).Sound)
    (hb : (s.place x).copies ≠ 0 → (s.place x).row ≠ none) (hc : op ≠ .commit x)
    (ha : ((s.apply op).2.place x).copies ≠ 0) : ((s.apply op).2.place x).row ≠ none := by
  have hp := effect_apply hi x op
  generalize (s.apply op).2.place x = p at hp ha ⊢
  cases hp with
  | spared => exact hb ha
  | readied | delayed | rescheduled | overwritten => exact Option.some_ne_none _
  | popped _ hp => exact absurd (hp.copies_eq.trans hs.copies_sub_one) ha
  | committed => exact absurd rfl hc
  | promoted hd => exact hs.stored (by simp [hd])
  | purged => exact absurd rfl ha

end Step

/-- Every id in its place. -/
structure Placed (s : Space) : Prop where
  indexed : s.Indexed
  nodup_ready : s.ready.Nodup
  apart : ∀ x ∈ s.ready, s.score? x = none
  /-- A stored id is ready or pending, and not both. -/
  placed : ∀ x, s.row? x ≠ none → Xor (x ∈ s.ready) (s.score? x ≠ none)
  stored : ∀ x, s.score? x ≠ none → s.row? x ≠ none

theorem placed_of_sound (hi : s.Indexed) (h : ∀ x, (s.place x).Sound) : s.Placed where
  indexed := hi
  nodup_ready := List.nodup_iff_count_le_one.mpr fun x => (h x).once
  apart x hx := (h x).apart (copies_ne_zero.mpr hx)
  placed x hx := by
    have ha := (h x).apart
    rw [copies_ne_zero] at ha
    rcases (h x).covered hx with hc | hd
    · exact .inl ⟨copies_ne_zero.mp hc, fun hd => hd (ha (copies_ne_zero.mp hc))⟩
    · exact .inr ⟨hd, fun hm => hd (ha hm)⟩
  stored x := (h x).stored

end Space

namespace Store

variable {k : Keys} {ops : List StoreOp}

/-- No id is produced twice. -/
def Fresh (ops : List StoreOp) : Prop := (ops.flatMap StoreOp.produced).Nodup

/-- Rows are written past the encoding only over rows that are stored at that time. -/
def RawOverStored (k : Keys) (ops : List StoreOp) : Prop :=
  ∀ n x row, ops[n]? = some (.putRow x row) →
    ((empty.run k (ops.take n)).space k).row? x ≠ none

theorem space_run_concat (op : StoreOp) : (empty.run k (ops ++ [op])).space k =
    (((empty.run k ops).space k).apply op).2 := by
  rw [run_append]; exact space_apply op

theorem indexed_run : ((empty.run k ops).space k).Indexed := by
  rw [space_run, space_empty]
  exact Space.indexed_empty.run ops

theorem RawOverStored.of_concat {op : StoreOp} (h : RawOverStored k (ops ++ [op])) :
    RawOverStored k ops := by
  intro n x row hn
  have hlt : n < ops.length := (List.getElem?_eq_some_iff.mp hn).1
  have hw := h n x row (by rw [List.getElem?_append_left hlt, hn])
  rwa [List.take_append_of_le_length (Nat.le_of_lt hlt)] at hw

theorem RawOverStored.last {x : String} {row : Bytes}
    (h : RawOverStored k (ops ++ [.putRow x row])) :
    ((empty.run k ops).space k).row? x ≠ none := by
  have hw := h ops.length x row (by simp)
  rwa [List.take_left] at hw

theorem place_run (hf : Fresh ops) (hw : RawOverStored k ops) (x : String) :
    (x ∉ ops.flatMap StoreOp.produced → ((empty.run k ops).space k).place x = .vacant) ∧
    (((empty.run k ops).space k).place x).Sound ∧
    (.commit x ∉ ops → x ∈ ((empty.run k ops).space k).ready →
      ((empty.run k ops).space k).row? x ≠ none) := by
  induction ops using List.reverseRecOn with
  | nil =>
    rw [run_nil, space_empty, Space.place_empty]
    refine ⟨fun _ => rfl, Place.sound_vacant, ?_⟩
    intro _ h; simp [Space.empty] at h
  | append_singleton ops op ih =>
    obtain ⟨hf', -, hd⟩ := List.nodup_append.mp (by simpa [Fresh] using hf)
    obtain ⟨hv, hs, hb⟩ := ih hf' hw.of_concat
    have hput : ∀ row, op = .putRow x row → ((empty.run k ops).space k).row? x ≠ none := by
      rintro row rfl; exact hw.last
    rw [space_run_concat]
    refine ⟨?_, ?_, ?_⟩
    · intro hx
      simp only [List.flatMap_append, List.mem_append, not_or, List.flatMap_singleton] at hx
      refine Space.vacant_apply indexed_run (hv hx.1) hx.2 fun row he => ?_
      exact hput row he (congrArg Place.row (hv hx.1))
    · exact Space.sound_apply indexed_run hs (fun hx => hv fun hx' => hd x hx' x hx rfl) hput
    · intro hc hr
      have hne : op ≠ .commit x := fun h => hc (by simp [h])
      have hc' : .commit x ∉ ops := fun h => hc (by simp [h])
      exact Space.backed_apply indexed_run hs
        (fun h => hb hc' (Space.copies_ne_zero.mp h)) hne (Space.copies_ne_zero.mpr hr)

theorem sound_runAll {ops : List (Keys × StoreOp)} (hf : Fresh (opsOn k ops))
    (hw : RawOverStored k (opsOn k ops)) (x : String) :
    (((empty.runAll ops).space k).place x).Sound := by
  have h := (place_run hf hw x).2.1
  rwa [space_run, ← space_runAll] at h

/-- While every message has an id of its own, each id is in its place after any run, and an
id that is ready without a row has been committed. -/
theorem placed_of_fresh_run (hf : Fresh ops) (hw : RawOverStored k ops) :
    ((empty.run k ops).space k).Placed ∧
    ∀ x ∈ ((empty.run k ops).space k).ready,
      ((empty.run k ops).space k).row? x = none → .commit x ∈ ops := by
  constructor
  · exact Space.placed_of_sound indexed_run fun x => (place_run hf hw x).2.1
  · intro x hx hr
    by_contra hc
    exact (place_run hf hw x).2.2 hc hx hr

/-- A run after which `a` is ready with a damaged row, `b` is pending, and `c` is ready without
a row. -/
def mixedRun : List StoreOp :=
  [.produce ⟨"a", [1], .epoch, none, none, 0⟩ .epoch,
    .produce ⟨"b", [2], .epoch, some .latest, none, 0⟩ .epoch,
    .take (.ofMillis 5) 2 .epoch, .putRow "a" [0x7B], .promote .latest 1,
    .reschedule "b" .epoch, .produce ⟨"c", [], .epoch, none, none, 0⟩ .epoch, .commit "c"]

theorem placed_mixedRun : Fresh mixedRun ∧ RawOverStored (.ofName "q") mixedRun ∧
    ((empty.run (.ofName "q") mixedRun).space (.ofName "q")).Placed ∧
    ((empty.run (.ofName "q") mixedRun).space (.ofName "q")).ready = ["a", "c"] ∧
    .commit "c" ∈ mixedRun := by
  have hf : Fresh mixedRun := by unfold Fresh; decide
  have hw : RawOverStored (.ofName "q") mixedRun := by
    intro n x row h
    have hr :
        ((empty.run (.ofName "q") (mixedRun.take 3)).space (.ofName "q")).row? "a" ≠ none := by
      decide +kernel
    have hn : n < 8 := (List.getElem?_eq_some_iff.mp h).1
    by_cases hne : n = 3
    · subst hne; cases h; exact hr
    · have : ∀ i < 8, i ≠ 3 → ∀ op, mixedRun[i]? = some op → op.isRaw = false := by decide
      simpa [StoreOp.isRaw] using this n hn hne _ h
  have h := placed_of_fresh_run hf hw
  exact ⟨hf, hw, h.1, by decide +kernel, h.2 "c" (by decide +kernel) (by decide +kernel)⟩

end Store

end DelayedQueue
