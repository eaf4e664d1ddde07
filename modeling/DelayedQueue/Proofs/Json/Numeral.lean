import DelayedQueue.Json.Numeral
import DelayedQueue.Json.Printer

/-! # The grammar of JSON numbers

Which bytes spell a numeral, and when the numeral is an integer literal. The scanner takes as
many bytes as spell one, so what follows a numeral must not be able to go on with it.
-/

namespace DelayedQueue.Json

def AllDigits (ds : Bytes) : Prop := ∀ d ∈ ds, isDigit d = true

namespace Numeral

/-- A leading zero stands alone. -/
inductive Whole : Bytes → Prop where
  | zero : Whole [0x30]
  | nonzero {d : UInt8} {ds : Bytes} : isDigit d = true → d ≠ 0x30 → AllDigits ds → Whole (d :: ds)

/-- The digits behind a point, and how they are written. -/
inductive Places : Bytes → Bytes → Prop where
  | none : Places [] []
  | some {ds : Bytes} : ds ≠ [] → AllDigits ds → Places ds (0x2E :: ds)

/-- An exponent with either letter, and how it is written. -/
inductive Power : Option Exponent → Bytes → Prop where
  | none : Power none []
  | bare {e : UInt8} {ds : Bytes} : e = 0x65 ∨ e = 0x45 → ds ≠ [] → AllDigits ds →
      Power (some ⟨false, ds⟩) (e :: ds)
  | plus {e : UInt8} {ds : Bytes} : e = 0x65 ∨ e = 0x45 → ds ≠ [] → AllDigits ds →
      Power (some ⟨false, ds⟩) (e :: 0x2B :: ds)
  | minus {e : UInt8} {ds : Bytes} : e = 0x65 ∨ e = 0x45 → ds ≠ [] → AllDigits ds →
      Power (some ⟨true, ds⟩) (e :: 0x2D :: ds)

def sign (negative : Bool) : Bytes := if negative then [0x2D] else []

/-- A numeral and the bytes that spell it. -/
def Spells (n : Numeral) (bs : Bytes) : Prop :=
  Whole n.whole ∧ ∃ ps es, Places n.places ps ∧ Power n.exponent es ∧
    bs = sign n.negative ++ n.whole ++ ps ++ es

/-- Nothing at the front of the text could go on with a numeral. -/
def Delimits (rest : Bytes) : Prop :=
  ∀ b ∈ rest.head?, isDigit b = false ∧ b ≠ 0x2E ∧ b ≠ 0x65 ∧ b ≠ 0x45

/-- An integer literal: no point and no exponent. -/
def Literal (n : Numeral) (k : Int) : Prop :=
  n.places = [] ∧ n.exponent = none ∧
    k = if n.negative then -(digitsValue n.whole : Int) else digitsValue n.whole

/-- An integer literal other than minus zero. -/
def Integer (n : Numeral) (k : Int) : Prop := n.Literal k ∧ ¬ (n.negative = true ∧ k = 0)

section Runs

variable {d : UInt8} {ds rest : Bytes}

theorem takeWhile_digits (h : AllDigits ds) (hr : ∀ b ∈ rest.head?, isDigit b = false) :
    (ds ++ rest).takeWhile isDigit = ds := by
  rw [List.takeWhile_append_of_pos h]
  cases rest with
  | nil => simp
  | cons b rest => simp [hr b rfl]

theorem dropWhile_digits (h : AllDigits ds) (hr : ∀ b ∈ rest.head?, isDigit b = false) :
    (ds ++ rest).dropWhile isDigit = rest := by
  rw [List.dropWhile_append_of_pos h]
  cases rest with
  | nil => rfl
  | cons b rest => simp [hr b rfl]

theorem allDigits_takeWhile (bs : Bytes) : AllDigits (bs.takeWhile isDigit) := by
  intro d hd
  exact List.all_eq_true.mp (List.all_takeWhile ..) d hd

theorem wellFormedWhole_iff (h : AllDigits ds) : wellFormedWhole ds = true ↔ Whole ds := by
  unfold wellFormedWhole
  split
  · simp only [Bool.false_eq_true, false_iff]; rintro ⟨⟩
  · next d ds =>
    constructor
    · intro hw
      by_cases hd : d = 0x30
      · subst hd
        simp only [bne_self_eq_false, Bool.false_or, List.isEmpty_iff] at hw
        rw [hw]; exact .zero
      · exact .nonzero (h d (by simp)) hd fun b hb => h b (by simp [hb])
    · rintro (_ | ⟨-, hd, -⟩)
      · rfl
      · simp [hd]

theorem Whole.allDigits {w : Bytes} (h : Whole w) : AllDigits w := by
  cases h with
  | zero => intro d hd; obtain rfl := List.mem_singleton.mp hd; rfl
  | nonzero hd _ hs =>
    intro b hb
    rcases List.mem_cons.mp hb with rfl | hb
    · exact hd
    · exact hs b hb

end Runs

section Scanning

variable {n : Numeral} {bs ps es rest : Bytes} {e : Option Exponent}

theorem scanPlaces_of_places (h : Places ps bs)
    (hr : ∀ b ∈ rest.head?, isDigit b = false ∧ b ≠ 0x2E) :
    scanPlaces (bs ++ rest) = some (ps, rest) := by
  cases h with
  | none =>
    unfold scanPlaces
    split
    · next h => cases h; exact absurd rfl (hr _ rfl).2
    · rfl
  | some hne hd =>
    have hr' : ∀ b ∈ rest.head?, isDigit b = false := fun b hb => (hr b hb).1
    simp [scanPlaces, takeWhile_digits hd hr', dropWhile_digits hd hr', hne]

theorem of_scanPlaces (h : scanPlaces bs = some (ps, rest)) :
    ∃ w, Places ps w ∧ bs = w ++ rest := by
  unfold scanPlaces at h
  split at h
  · next bs =>
    simp only at h
    split at h
    · cases h
    · next hne =>
      cases h
      refine ⟨_, .some (by simpa using hne) (allDigits_takeWhile bs), ?_⟩
      simp [List.takeWhile_append_dropWhile]
  · cases h; exact ⟨[], .none, rfl⟩

theorem scanExponent_of_power (h : Power e bs)
    (hr : ∀ b ∈ rest.head?, isDigit b = false ∧ b ≠ 0x65 ∧ b ≠ 0x45) :
    scanExponent (bs ++ rest) = some (e, rest) := by
  have hr' : ∀ b ∈ rest.head?, isDigit b = false := fun b hb => (hr b hb).1
  cases h with
  | none =>
    cases rest with
    | nil => rfl
    | cons b rest =>
      obtain ⟨-, h₁, h₂⟩ := hr b rfl
      simp [scanExponent, h₁, h₂]
  | @bare l ds hl hne hd =>
    obtain ⟨d, ds, rfl⟩ := List.exists_cons_of_ne_nil hne
    have ht := takeWhile_digits hd hr'
    have hdr := dropWhile_digits hd hr'
    simp only [List.cons_append] at ht hdr ⊢
    simp only [scanExponent, if_pos hl]
    -- a digit is no sign
    split
    · next h => cases h; exact absurd (hd _ List.mem_cons_self) (by decide)
    · next h => cases h; exact absurd (hd _ List.mem_cons_self) (by decide)
    · simp [ht, hdr]
  | plus hl hne hd =>
    simp [scanExponent, hl, takeWhile_digits hd hr', dropWhile_digits hd hr', hne]
  | minus hl hne hd =>
    simp [scanExponent, hl, takeWhile_digits hd hr', dropWhile_digits hd hr', hne]

theorem of_scanExponent (h : scanExponent bs = some (e, rest)) :
    ∃ w, Power e w ∧ bs = w ++ rest := by
  unfold scanExponent at h
  split at h
  · cases h; exact ⟨[], .none, rfl⟩
  · next b bs =>
    split at h
    · next hl =>
      simp only at h
      split at h <;> split at h
      · cases h
      · next hne =>
        cases h
        refine ⟨_, .minus hl (by simpa using hne) (allDigits_takeWhile _), ?_⟩
        simp [List.takeWhile_append_dropWhile]
      · cases h
      · next hne =>
        cases h
        refine ⟨_, .plus hl (by simpa using hne) (allDigits_takeWhile _), ?_⟩
        simp [List.takeWhile_append_dropWhile]
      · cases h
      · next hne =>
        cases h
        refine ⟨_, .bare hl (by simpa using hne) (allDigits_takeWhile _), ?_⟩
        simp [List.takeWhile_append_dropWhile]
    · cases h; exact ⟨[], .none, rfl⟩

theorem not_digit_of_places (hp : Places ps bs) {w : Bytes} (he : Power e w)
    (hr : Delimits rest) : ∀ b ∈ (bs ++ w ++ rest).head?, isDigit b = false := by
  cases hp with
  | none =>
    cases he with
    | none => exact fun b hb => (hr b hb).1
    | bare hl | plus hl | minus hl =>
      rintro b hb
      cases hb
      rcases hl with rfl | rfl <;> rfl
  | some => rintro b hb; cases hb; rfl

theorem not_point_of_power (he : Power e bs) (hr : Delimits rest) :
    ∀ b ∈ (bs ++ rest).head?, isDigit b = false ∧ b ≠ 0x2E := by
  cases he with
  | none => exact fun b hb => ⟨(hr b hb).1, (hr b hb).2.1⟩
  | bare hl | plus hl | minus hl =>
    rintro b hb
    cases hb
    rcases hl with rfl | rfl <;> exact ⟨rfl, by decide⟩

theorem Spells.scan? (h : Spells n bs) (hr : Delimits rest) :
    scan? (bs ++ rest) = some (n, rest) := by
  obtain ⟨negative, whole, places, exponent⟩ := n
  obtain ⟨hw, ps, es, hp, he, rfl⟩ := h
  have ht := takeWhile_digits hw.allDigits (not_digit_of_places hp he hr)
  have hd := dropWhile_digits hw.allDigits (not_digit_of_places hp he hr)
  have hs := scanPlaces_of_places hp (not_point_of_power he hr)
  have hx := scanExponent_of_power he fun b hb => ⟨(hr b hb).1, (hr b hb).2.2⟩
  have hwf := (wellFormedWhole_iff hw.allDigits).mpr hw
  simp only [List.append_assoc] at ht hd hs hwf ⊢
  unfold Numeral.scan?
  cases negative with
  | true => simp [sign, ht, hd, hs, hx, hwf]
  | false =>
    simp only [sign, Bool.false_eq_true, if_false, List.nil_append]
    split
    · next heq =>
      -- a whole part starts with no minus
      exfalso
      cases hw with
      | zero => cases heq
      | nonzero h0 =>
        cases heq
        exact absurd h0 (by decide)
    · simp [ht, hd, hs, hx, hwf]

theorem of_scan? (h : Numeral.scan? bs = some (n, rest)) : ∃ w, Spells n w ∧ bs = w ++ rest := by
  unfold Numeral.scan? at h
  split at h
  next negative bs' hbs =>
  have hsign : bs = sign negative ++ bs' := by
    split at hbs <;> cases hbs <;> rfl
  simp only at h
  split at h
  · next hwf =>
    split at h
    · cases h
    · next ps bs₁ hp =>
      split at h
      · cases h
      · next e bs₂ he =>
        cases h
        obtain ⟨wp, hp, hp'⟩ := of_scanPlaces hp
        obtain ⟨we, he, he'⟩ := of_scanExponent he
        have hw := (wellFormedWhole_iff (allDigits_takeWhile bs')).mp hwf
        refine ⟨_, ⟨hw, wp, we, hp, he, rfl⟩, ?_⟩
        have hsplit := List.takeWhile_append_dropWhile (p := isDigit) (l := bs')
        rw [hp', he'] at hsplit
        simp only [hsign, List.append_assoc, hsplit]
  · cases h

end Scanning

end Numeral

end DelayedQueue.Json
