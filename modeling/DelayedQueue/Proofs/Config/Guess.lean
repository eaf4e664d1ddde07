import DelayedQueue.Proofs.Config.Layers
import DelayedQueue.Proofs.Text.Real

/-! # What a variable's text is taken for

The text of a variable is taken for a Boolean, an integer, a fraction or a text. A field that wants
a text gets it written anew, and a field that wants a number gets it from the value, so both may
differ from what was written.
-/

namespace DelayedQueue

variable {s : String} {n : Nat} {k : Int}

namespace Config.Value

/-- Whether an integer fits in 64 bits with its sign. -/
def Fits (k : Int) : Prop := -(signedLimit : Int) - 1 ≤ k ∧ k ≤ signedLimit

/-- The integers in 64 bits that a text spells. -/
def SpellsWord (s : String) (k : Int) : Prop := Decimal.SpellsInteger s.toList k ∧ Fits k

theorem parseSigned_eq_ok_iff :
    Decimal.parseSigned signedLimit s.toList = .ok k ↔ SpellsWord s k :=
  Decimal.parseSigned_eq_ok_iff

/-- The value that a text is taken for. -/
inductive Guess (s : String) : Value → Prop where

  | bool {b : Bool} : s.toLower = toString b → Guess s (.bool b)

  | integer {k : Int} : SpellsWord s k → Guess s (.integer k)

  | real {x : Float} : (∀ b : Bool, s.toLower ≠ toString b) → (∀ k, ¬ SpellsWord s k) →
      Real.parse? s = some x → Guess s (.real x)

  | text : (∀ b : Bool, s.toLower ≠ toString b) → (∀ k, ¬ SpellsWord s k) →
      Real.parse? s = none → Guess s (.text s)

theorem toList_toLower : s.toLower.toList = s.toList.map Char.toLower := String.toList_map

theorem toLower_ne_of_spellsInteger (h : Decimal.SpellsInteger s.toList k) (b : Bool) :
    s.toLower ≠ toString b := by
  rw [ne_eq, ← String.toList_inj, toList_toLower]
  cases b
  · exact h.map_toLower_ne (w := 'f') (by decide)
  · exact h.map_toLower_ne (w := 't') (by decide)

theorem Guess.eq {v w : Value} (h : Guess s v) (h' : Guess s w) : v = w := by
  cases h with
  | @bool b hb =>
    cases h' with
    | @bool b' hb' =>
      have hinj : ∀ b b' : Bool, toString b = toString b' → b = b' := by decide
      rw [hinj b b' (hb.symm.trans hb')]
    | integer hw => exact absurd hb (toLower_ne_of_spellsInteger hw.1 b)
    | real hn => exact absurd hb (hn b)
    | text hn => exact absurd hb (hn b)
  | integer hw =>
    cases h' with
    | @bool b hb => exact absurd hb (toLower_ne_of_spellsInteger hw.1 b)
    | integer hw' => rw [hw.1.eq hw'.1]
    | real _ hn => exact absurd hw (hn _)
    | text _ hn => exact absurd hw (hn _)
  | real hb hn hx =>
    cases h' with
    | bool hb' => exact absurd hb' (hb _)
    | integer hw => exact absurd hw (hn _)
    | real _ _ hx' => rw [Option.some.inj (hx.symm.trans hx')]
    | text _ _ hx' => cases hx.symm.trans hx'
  | text hb hn hx =>
    cases h' with
    | bool hb' => exact absurd hb' (hb _)
    | integer hw => exact absurd hw (hn _)
    | real _ _ hx' => cases hx.symm.trans hx'
    | text => rfl

theorem guess_ofVariable : Guess s (ofVariable s) := by
  unfold ofVariable
  split
  · next h => exact .bool h
  · next h => exact .bool h
  · next ht hf =>
    have hb : ∀ b : Bool, s.toLower ≠ toString b := by rintro (- | -) <;> assumption
    split
    · next hp => exact .integer (parseSigned_eq_ok_iff.mp hp)
    · next hp =>
      have hn : ∀ k, ¬ SpellsWord s k := by
        intro k hk
        rw [parseSigned_eq_ok_iff.mpr hk] at hp
        cases hp
      split
      · next hx => exact .real hb hn hx
      · next hx => exact .text hb hn hx

theorem ofVariable_eq_iff {v : Value} : ofVariable s = v ↔ Guess s v := by
  constructor
  · rintro rfl
    exact guess_ofVariable
  · exact guess_ofVariable.eq

theorem isPlain_ofVariable : (ofVariable s).IsPlain := by
  have h : Guess s (ofVariable s) := guess_ofVariable
  generalize ofVariable s = v at h
  cases h <;> trivial

section Numbers

/-- What a field of 64 bits gets for a literal. Past the integers with a sign, the number goes
through a double. -/
def wordOf (n : Nat) : UInt64 :=
  if n ≤ signedLimit then .ofNat n else roundToWord (Real.nearest false n 0)

theorem toWord_ofVariable (h : Decimal.Spells s.toList n) :
    (ofVariable s).toWord = .ok (wordOf n) := by
  have hb := toLower_ne_of_spellsInteger (.unsigned h)
  unfold wordOf
  split
  · next hle =>
    have hv : ofVariable s = .integer n :=
      ofVariable_eq_iff.mpr (.integer ⟨.unsigned h, by omega, by omega⟩)
    rw [hv, toWord, if_pos (by omega), Int.toNat_natCast]
  · next hlt =>
    have hw (k : Int) : ¬ SpellsWord s k := by
      rintro ⟨hk, -, hu⟩
      have he : (n : Int) = k := (Decimal.SpellsInteger.unsigned h).eq hk
      omega
    have hv : ofVariable s = .real (Real.nearest false n 0) :=
      ofVariable_eq_iff.mpr (.real hb hw (Real.parse?_of_spells h))
    rw [hv, toWord]

/-- The literals whose number a field of 64 bits gets. -/
def NumberKept (s : String) : Prop :=
  ∀ n, Decimal.Spells s.toList n →
    n ≤ signedLimit ∨ (roundToWord (Real.nearest false n 0)).toNat = n

theorem toNat_wordOf_eq_iff (h : Decimal.Spells s.toList n) :
    (wordOf n).toNat = n ↔ NumberKept s := by
  have hkept : NumberKept s ↔
      n ≤ signedLimit ∨ (roundToWord (Real.nearest false n 0)).toNat = n := by
    constructor
    · intro hk
      exact hk n h
    · rintro hk m hm
      rwa [hm.eq h]
  rw [hkept, wordOf]
  split
  · next hle =>
    have hsize : n < UInt64.size := Nat.lt_of_le_of_lt hle (by decide)
    simp only [hle, true_or, iff_true]
    exact UInt64.toNat_ofNat_of_lt' hsize
  · next hlt => simp only [hlt, false_or]

theorem numberKept_of_parseUnsigned (h : Decimal.parseUnsigned signedLimit s.toList = .ok n) :
    NumberKept s := by
  obtain ⟨hs, hle⟩ := Decimal.parseUnsigned_eq_ok_iff.mp h
  exact fun m hm => .inl (hm.eq hs ▸ hle)

theorem toHalfWord_ofVariable (h : Decimal.Spells s.toList n) (hn : n < UInt32.size) :
    (ofVariable s).toHalfWord = .ok (.ofNat n) := by
  have hsigned : n ≤ signedLimit := Nat.le_trans hn.le (by decide)
  have hsize : n < UInt64.size := Nat.lt_trans hn (by decide)
  have hnat : (UInt64.ofNat n).toNat = n := UInt64.toNat_ofNat_of_lt' hsize
  rw [toHalfWord, toWord_ofVariable h, wordOf, if_pos hsigned]
  simp only [hnat, hn, if_true]

end Numbers

section Texts

theorem exists_toText_ofVariable : ∃ t, (ofVariable s).toText = .ok t := by
  have h : Guess s (ofVariable s) := guess_ofVariable
  generalize ofVariable s = v at h
  cases h <;> exact ⟨_, rfl⟩

/-- The texts that are written anew as they were. -/
inductive TextKept (s : String) : Prop where

  | bool {b : Bool} : s = toString b → TextKept s

  | integer {k : Int} : Fits k → s = toString k → TextKept s

  | real {x : Float} : (∀ b : Bool, s.toLower ≠ toString b) → (∀ k, ¬ SpellsWord s k) →
      Real.parse? s = some x → Real.text x = s → TextKept s

  | text : (∀ b : Bool, s.toLower ≠ toString b) → (∀ k, ¬ SpellsWord s k) →
      Real.parse? s = none → TextKept s

theorem toList_toString (k : Int) : (toString k).toList = Decimal.signed k := by
  cases k with
  | ofNat n => simp [toString, Int.repr, Nat.repr, Decimal.signed]
  | negSucc n => simp [toString, Int.repr, Nat.repr, Decimal.signed, Int.negSucc_lt_zero]

theorem toText_ofVariable_eq_ok_iff : (ofVariable s).toText = .ok s ↔ TextKept s := by
  constructor
  · have hg : Guess s (ofVariable s) := guess_ofVariable
    generalize ofVariable s = v at hg
    intro h
    cases hg with
    | bool => exact .bool (Except.ok.inj h).symm
    | integer hw => exact .integer hw.2 (Except.ok.inj h).symm
    | real hb hw hx => exact .real hb hw hx (Except.ok.inj h)
    | text hb hw hx => exact .text hb hw hx
  · intro h
    have hv : ∃ v, Guess s v ∧ v.toText = .ok s := by
      cases h with
      | @bool b h =>
        refine ⟨_, .bool (b := b) ?_, congrArg Except.ok h.symm⟩
        rw [h, ← String.toList_inj, toList_toLower]
        cases b <;> decide
      | @integer k hf h =>
        refine ⟨_, .integer (k := k) ⟨?_, hf⟩, congrArg Except.ok h.symm⟩
        rw [h, toList_toString]
        exact Decimal.spellsInteger_signed k
      | real hb hw hx ht => exact ⟨_, .real hb hw hx, congrArg Except.ok ht⟩
      | text hb hw hx => exact ⟨_, .text hb hw hx, rfl⟩
    obtain ⟨v, hg, ht⟩ := hv
    rw [ofVariable_eq_iff.mpr hg, ht]

/-- The usual names are kept: those with a character in them that no number has, unless they end in
one of the words. -/
theorem textKept_of_mem {c : Char} (hc : c ∈ s.toList) (hn : ¬ Real.IsNumberChar c)
    (hw : ∀ w ∈ Real.words, ¬ w.toList <:+ s.toList.map Char.toLower) : TextKept s := by
  refine .text (fun b hb => ?_) (fun k hk => ?_) (Real.parse?_eq_none_of_mem hc hn hw)
  · have hlower : (toString b).toList = s.toList.map Char.toLower := by
      rw [← hb, toList_toLower]
    exact hw (toString b) (by cases b <;> decide) (hlower ▸ List.suffix_rfl)
  · exact hn (Real.isNumberChar_of_spellsInteger hk.1 c hc)

end Texts

end Config.Value

end DelayedQueue
