import Mathlib.Data.List.TakeWhile
import DelayedQueue.Proofs.Text.Decimal
import DelayedQueue.Text.Real

/-! # Which texts are fractions

Digits alone are read as the whole number that they spell. A text with a character in it that no
number has is none, unless it ends in a word for what is no finite number.
-/

namespace DelayedQueue

variable {s : String} {n : Nat} {k : Int}

namespace Real

theorem Literal.parse?_of_isDigits {negative : Bool} {ds : List Char} (h : Decimal.IsDigits ds) :
    Literal.parse? negative ds = some ⟨negative, Decimal.value ds, 0⟩ := by
  have htake : ds.takeWhile Char.isDigit = ds := List.takeWhile_eq_self_iff.mpr h.2
  have hdrop : ds.dropWhile Char.isDigit = [] := List.dropWhile_eq_nil_iff.mpr h.2
  have hempty : ds.isEmpty = false := by simpa using h.1
  simp only [parse?, htake, hdrop, hempty, Bool.false_and, List.append_nil]
  rfl

/-- Digits are taken for a whole number, and a plus sign before them is let go. -/
theorem parse?_of_spells (h : Decimal.Spells s.toList n) :
    parse? s = some (nearest false n 0) := by
  unfold parse?
  split
  next negative cs hs =>
  have hcs : negative = false ∧ Decimal.IsDigits cs ∧ Decimal.value cs = n := by
    split at hs
    · next hl =>
      rw [hl] at h
      cases h with
      | bare hd => exact absurd hd Decimal.not_isDigits_minus
    · next hl =>
      cases hs
      exact ⟨rfl, Decimal.spells_plus.mp (hl ▸ h)⟩
    · next hplus =>
      cases hs
      generalize s.toList = ds at h hplus ⊢
      cases h with
      | bare hd => exact ⟨rfl, hd, rfl⟩
      | plus => exact absurd rfl (hplus _)
  obtain ⟨rfl, hd, rfl⟩ := hcs
  extract_lets word special
  have hword {w : String} {c : Char} {ws : List Char} (hw : w.toList = c :: ws)
      (hc : ¬ (c.isDigit = true ∨ c = '+' ∨ c = '-')) : word ≠ w := by
    rw [ne_eq, ← String.toList_inj, String.toList_ofList, hw]
    exact (Decimal.SpellsInteger.unsigned (.bare hd)).map_toLower_ne hc
  rw [if_neg, if_neg (hword rfl (by decide)), Literal.parse?_of_isDigits hd]
  · rfl
  · exact fun h => h.elim (hword rfl (by decide)) (hword rfl (by decide))

/-- A character that a number can be written with. -/
def IsNumberChar (c : Char) : Prop := c.isDigit = true ∨ c ∈ ['+', '-', '.', 'e', 'E']

theorem isNumberChar_of_dropWhile {cs : List Char}
    (h : ∀ c ∈ cs.dropWhile Char.isDigit, IsNumberChar c) : ∀ c ∈ cs, IsNumberChar c := by
  intro c hc
  rw [← List.takeWhile_append_dropWhile (p := Char.isDigit) (l := cs), List.mem_append] at hc
  exact hc.elim (fun hm => .inl (List.mem_takeWhile_imp hm)) (h c)

theorem isNumberChar_cons {m : Char} {cs : List Char} (hm : m ∈ ['+', '-', '.', 'e', 'E'])
    (hcs : ∀ c ∈ cs, IsNumberChar c) : ∀ c ∈ m :: cs, IsNumberChar c :=
  List.forall_mem_cons.mpr ⟨.inr hm, hcs⟩

theorem isNumberChar_of_spellsInteger {cs : List Char} (h : Decimal.SpellsInteger cs k) :
    ∀ c ∈ cs, IsNumberChar c := by
  cases h with
  | unsigned h =>
    cases h with
    | bare h => exact fun c hc => .inl (h.2 c hc)
    | plus h => exact isNumberChar_cons (by decide) fun c hc => .inl (h.2 c hc)
  | minus h => exact isNumberChar_cons (by decide) fun c hc => .inl (h.2 c hc)

theorem Literal.isNumberChar_of_parse? {negative : Bool} {cs : List Char} {l : Literal}
    (h : Literal.parse? negative cs = some l) : ∀ c ∈ cs, IsNumberChar c := by
  apply isNumberChar_of_dropWhile
  unfold Literal.parse? at h
  extract_lets whole behind at h
  change ∀ c ∈ behind, IsNumberChar c
  clear_value behind
  split at h
  next places rest hp =>
  extract_lets digits exponent? at h
  split at h
  · cases h
  obtain ⟨e, he, -⟩ := Option.map_eq_some_iff.mp h
  have hrest : ∀ c ∈ rest, IsNumberChar c := by
    unfold exponent? at he
    clear_value exponent?
    split at he
    · simp
    next m cs =>
    split at he
    · cases he
    next hm =>
    have hm : m ∈ ['+', '-', '.', 'e', 'E'] := by
      simp only [Bool.and_eq_true, bne_iff_ne, ne_eq] at hm
      simp only [List.mem_cons]
      grind
    refine isNumberChar_cons hm ?_
    split at he
    next minus ds hs =>
    split at he
    · cases he
    next hds =>
    have hds : ∀ c ∈ ds, IsNumberChar c := by
      simp only [Bool.or_eq_true, not_or, Bool.not_eq_true', Bool.not_eq_false,
        List.all_eq_true] at hds
      exact fun c hc => .inl (hds.2 c hc)
    split at hs
    · cases hs
      exact isNumberChar_cons (by decide) hds
    · cases hs
      exact isNumberChar_cons (by decide) hds
    · cases hs
      exact hds
  split at hp
  · cases hp
    exact isNumberChar_cons (by decide) (isNumberChar_of_dropWhile hrest)
  · cases hp
    exact hrest

/-- The words that texts are taken for. -/
def words : List String := ["true", "false", "inf", "infinity", "nan"]

/-- A text that ends in no such word, with a character in it that no number has, is no number. -/
theorem parse?_eq_none_of_mem {c : Char} (hc : c ∈ s.toList) (hn : ¬ IsNumberChar c)
    (hw : ∀ w ∈ words, ¬ w.toList <:+ s.toList.map Char.toLower) : parse? s = none := by
  rw [Option.eq_none_iff_forall_ne_some]
  intro x hx
  unfold parse? at hx
  split at hx
  next negative cs hs =>
  have hsigned {m : Char} (hm : m ∈ ['+', '-', '.', 'e', 'E']) (hl : s.toList = m :: cs) :
      cs <:+ s.toList ∧ c ∈ cs := by
    rw [hl] at hc ⊢
    refine ⟨List.suffix_cons m cs, (List.mem_cons.mp hc).resolve_left ?_⟩
    rintro rfl
    exact hn (.inr hm)
  have hcs : cs <:+ s.toList ∧ c ∈ cs := by
    split at hs
    · next hl =>
      cases hs
      exact hsigned (by decide) hl
    · next hl =>
      cases hs
      exact hsigned (by decide) hl
    · cases hs
      exact ⟨List.suffix_rfl, hc⟩
  have hword {w : String} (hm : w ∈ words) : String.ofList (cs.map Char.toLower) ≠ w := by
    rintro rfl
    refine hw _ hm ?_
    rw [String.toList_ofList]
    exact hcs.1.map _
  rw [if_neg, if_neg (hword (by decide))] at hx
  · obtain ⟨l, hl, -⟩ := Option.map_eq_some_iff.mp hx
    exact hn (Literal.isNumberChar_of_parse? hl c hcs.2)
  · exact fun h => h.elim (hword (by decide)) (hword (by decide))

end Real

end DelayedQueue
