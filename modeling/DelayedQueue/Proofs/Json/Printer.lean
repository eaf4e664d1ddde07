import Mathlib.Data.List.Forall2
import DelayedQueue.Json.Printer
import DelayedQueue.Proofs.Json.Grammar

/-! # What is printed is in the grammar

Printed strings denote themselves, printed integers are literals of themselves, and printed
containers are values of the trees of what they contain.
-/

namespace DelayedQueue.Json

section Digits

variable {n : Nat}

theorem digits_of_lt (h : n < 10) : digits n = [(0x30 + n).toUInt8] := by
  have : ∀ n < 10, digits n = [(0x30 + n).toUInt8] := by decide
  exact this n h

theorem digits_of_le (h : 10 ≤ n) : digits n = digits (n / 10) ++ digits (n % 10) := by
  simp only [digits, ← List.map_append]
  rw [Nat.toDigits_of_base_le (by decide) h, Nat.toDigits_of_lt_base (Nat.mod_lt _ (by decide))]

theorem digitsValue_append (ds : Bytes) (d : UInt8) :
    digitsValue (ds ++ [d]) = 10 * digitsValue ds + (d.toNat - 0x30) := by
  simp [digitsValue]

theorem digitsValue_digits (n : Nat) : digitsValue (digits n) = n := by
  induction n using Nat.strongRecOn with
  | ind n ih =>
    rcases Nat.lt_or_ge n 10 with h | h
    · rw [digits_of_lt h]
      simp [digitsValue]
      omega
    · rw [digits_of_le h, digits_of_lt (Nat.mod_lt n (by decide)), digitsValue_append,
        ih _ (by omega)]
      simp
      omega

theorem isDigit_of_lt (h : n < 10) : isDigit (0x30 + n).toUInt8 = true := by
  have : ∀ n < 10, isDigit (0x30 + n).toUInt8 = true := by decide
  exact this n h

theorem Numeral.Whole.append {w : Bytes} {d : UInt8} (h : Whole w) (hw : digitsValue w ≠ 0)
    (hd : isDigit d = true) : Whole (w ++ [d]) := by
  cases h with
  | zero => exact absurd rfl hw
  | nonzero h₁ h₂ h₃ =>
    refine .nonzero h₁ h₂ fun b hb => ?_
    rcases List.mem_append.mp hb with hb | hb
    · exact h₃ b hb
    · obtain rfl := List.mem_singleton.mp hb; exact hd

theorem whole_digits (n : Nat) : Numeral.Whole (digits n) := by
  induction n using Nat.strongRecOn with
  | ind n ih =>
    rcases Nat.lt_or_ge n 10 with h | h
    · rw [digits_of_lt h]
      by_cases h0 : n = 0
      · subst h0; exact .zero
      · refine .nonzero (isDigit_of_lt h) ?_ (by simp [AllDigits])
        intro heq
        have := congrArg UInt8.toNat heq
        simp at this
        omega
    · rw [digits_of_le h, digits_of_lt (Nat.mod_lt n (by decide))]
      refine (ih _ (by omega)).append ?_ (isDigit_of_lt (Nat.mod_lt n (by decide)))
      rw [digitsValue_digits]
      omega

/-- The numeral that is printed for an integer. -/
def Numeral.ofInt (k : Int) : Numeral := ⟨k < 0, digits k.natAbs, [], none⟩

theorem Numeral.spells_ofInt (k : Int) : (ofInt k).Spells (integer k) := by
  refine ⟨whole_digits _, [], [], .none, .none, ?_⟩
  unfold integer ofInt sign
  split <;> simp [*]

theorem Numeral.integer_ofInt (k : Int) : (ofInt k).Integer k := by
  have hv : digitsValue (ofInt k).whole = k.natAbs := digitsValue_digits _
  have hn : (ofInt k).negative = true ↔ k < 0 := decide_eq_true_iff
  refine ⟨⟨rfl, rfl, ?_⟩, fun h => absurd (hn.mp h.1) (by omega)⟩
  rw [hv]
  split
  · next h => have := hn.mp h; omega
  · next h => have := mt hn.mpr h; omega

theorem integer_natCast (n : Nat) : integer n = digits n := by
  simp [integer]

end Digits

section Strings

variable {n : Nat} {c : Char} {bs : Bytes} {cs : List Char}

theorem hexDigit_hexDigitByte (h : n < 16) : HexDigit (hexDigitByte n) n := by
  unfold hexDigitByte
  split
  · next hn => exact .decimal hn
  · next hn =>
    obtain ⟨k, rfl⟩ := Nat.exists_eq_add_of_le (Nat.le_of_not_lt hn)
    rw [← Nat.add_assoc]
    exact .lower (by omega)

theorem hexUnit_control (h : n < 0x20) :
    HexUnit 0x30 0x30 (hexDigitByte (n / 16)) (hexDigitByte (n % 16)) n := by
  have h0 : HexDigit 0x30 0 := HexDigit.decimal (n := 0) (by decide)
  exact ⟨0, 0, n / 16, n % 16, h0, h0, hexDigit_hexDigitByte (by omega),
    hexDigit_hexDigitByte (by omega), by omega⟩

theorem Text.denotes_escape (h : Denotes bs cs) : Denotes (escape c ++ bs) (c :: cs) := by
  unfold escape
  split
  case h_8 hq hs _ _ _ _ _ =>
    split
    · next hc =>
      have hnot : ¬ HighSurrogate c.toNat ∧ ¬ LowSurrogate c.toNat := by
        unfold HighSurrogate LowSurrogate; omega
      have := Denotes.unit (hexUnit_control hc) hnot.1 hnot.2 h
      rwa [Char.ofNat_toNat] at this
    · next hc => exact .plain (by omega) hq hs h
  all_goals exact .short (by decide) h

theorem Text.denotes_flatMap_escape (cs : List Char) : Denotes (cs.flatMap escape) cs := by
  induction cs with
  | nil => exact .nil
  | cons c cs ih => rw [List.flatMap_cons]; exact denotes_escape ih

/-- The text that is printed for a string. -/
def Text.ofString (s : String) : Text := ⟨s.toList.flatMap escape⟩

theorem Text.denotes_ofString (s : String) : Denotes (ofString s).body s.toList :=
  denotes_flatMap_escape s.toList

theorem Text.body_ofString (s : String) : Body (ofString s).body :=
  (denotes_ofString s).unescape.1

theorem value_quote (s : String) : Value (.string (.ofString s)) (quote s) :=
  .string (Text.body_ofString s)

end Strings

section Containers

variable {t : Tree} {ts : List Tree} {bs : Bytes} {items : List Bytes}

theorem Value.element (h : Value t bs) : Element t bs := by
  have := Element.padded (u := []) (w := []) nofun h nofun
  simpa using this

theorem value_number (k : Int) : Value (.number (.ofInt k)) (integer k) :=
  .number (Numeral.spells_ofInt k)

/-- Items that are joined with commas are a list of what they are. -/
theorem commaSeparated_induction {α : Type} {p : α → Bytes → Prop} {q : List α → Bytes → Prop}
    {as : List α} (last : ∀ {a b}, p a b → q [a] b)
    (cons : ∀ {a b as bs}, p a b → q as bs → q (a :: as) (b ++ 0x2C :: bs))
    (h : List.Forall₂ p as items) (hne : as ≠ []) : q as (commaSeparated items) := by
  induction h with
  | nil => exact absurd rfl hne
  | cons ha has ih =>
    cases has with
    | nil => exact last ha
    | cons hb hbs => exact cons ha (ih (by simp))

theorem value_array (h : List.Forall₂ Value ts items) : Value (.array ts true) (array items) := by
  cases h with
  | nil =>
    have h : Value (.array [] true) (0x5B :: ([] ++ [0x5D])) := .emptyArray nofun
    exact h
  | cons hv hvs =>
    exact .array (commaSeparated_induction (fun h => .last h.element) (fun h => .cons h.element)
      (.cons hv hvs) (by simp))

theorem value_object {ms : List (Text × Tree)}
    (h : List.Forall₂ (fun m b => Member m.1 m.2 b) ms items) :
    Value (.object ms true) (object items) := by
  cases h with
  | nil =>
    have h : Value (.object [] true) (0x7B :: ([] ++ [0x7D])) := .emptyObject nofun
    exact h
  | cons hv hvs =>
    exact .object (commaSeparated_induction (fun h => .last h) (fun h => .cons h)
      (.cons hv hvs) (by simp))

theorem member_member {s : String} (h : Value t bs) : Member (.ofString s) t (member s bs) := by
  have := Member.keyed (u := []) (v := []) nofun (Text.body_ofString s) nofun h.element
  simpa [member, quote, Text.ofString] using this

end Containers

end DelayedQueue.Json
