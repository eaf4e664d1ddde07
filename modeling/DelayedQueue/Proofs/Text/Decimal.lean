import DelayedQueue.Text.Decimal

/-! # Decimal integers are read by their spelling

A literal is a sign, which may be left out, and digits, and it is read as the number that it spells
if that is within the limit. The digits of a number are such a literal, and so is an integer with
its sign.
-/

namespace DelayedQueue.Decimal

variable {limit n : Nat} {excess : Fault}

theorem digit?_digitChar (h : n < 10) : digit? n.digitChar = some n := by
  have : ∀ n < 10, digit? n.digitChar = some n := by decide
  exact this n h

theorem readDigits_concat {acc : Nat} {cs : List Char} {c : Char} :
    readDigits limit excess acc (cs ++ [c]) =
      match readDigits limit excess acc cs with
      | .ok n => readDigits limit excess n [c]
      | .error f => .error f := by
  induction cs generalizing acc with
  | nil => rfl
  | cons d cs ih =>
    rw [List.cons_append, readDigits, readDigits]
    split
    · rfl
    · split
      · rfl
      · exact ih

theorem readDigits_toDigits (h : n ≤ limit) :
    readDigits limit excess 0 (Nat.toDigits 10 n) = .ok n := by
  induction n using Nat.strongRecOn with
  | ind n ih =>
    rcases Nat.lt_or_ge n 10 with hn | hn
    · rw [Nat.toDigits_of_lt_base hn]
      simp [readDigits, digit?_digitChar hn, Nat.not_lt.mpr h]
    · have hm : n % 10 < 10 := Nat.mod_lt n (by decide)
      rw [Nat.toDigits_of_base_le (by decide) hn, readDigits_concat, ih _ (by omega) (by omega)]
      simp only [readDigits, digit?_digitChar hm, Nat.div_add_mod, Nat.not_lt.mpr h, if_false]

/-- The digits of an integer, with a minus sign if it is negative. -/
def signed (k : Int) : List Char :=
  if k < 0 then '-' :: Nat.toDigits 10 k.natAbs else Nat.toDigits 10 k.natAbs

theorem exists_toDigits_cons (n : Nat) :
    ∃ c cs, Nat.toDigits 10 n = c :: cs ∧ c.isDigit = true := by
  cases h : Nat.toDigits 10 n with
  | nil => exact absurd h Nat.toDigits_ne_nil
  | cons c cs =>
    exact ⟨c, cs, rfl, Nat.isDigit_of_mem_toDigits (by decide) (by decide) (h ▸ List.mem_cons_self)⟩

theorem parseSigned_signed {k : Int} (hl : -(limit : Int) - 1 ≤ k) (hu : k ≤ limit) :
    parseSigned limit (signed k) = .ok k := by
  obtain ⟨c, cs, hd, hc⟩ := exists_toDigits_cons k.natAbs
  have hread (l : Nat) (e : Fault) (h : k.natAbs ≤ l) :
      readDigits l e 0 (c :: cs) = .ok k.natAbs := hd ▸ readDigits_toDigits h
  unfold signed
  rw [hd]
  split
  · next hk =>
    have hr := hread (limit + 1) .tooSmall (by omega)
    have hk' : -(k.natAbs : Int) = k := by omega
    calc parseSigned limit ('-' :: c :: cs)
      _ = ((Except.ok k.natAbs).map Int.ofNat).map Int.neg := by rw [← hr]; rfl
      _ = .ok k := congrArg Except.ok hk'
  · next hk =>
    have hr := hread limit .tooLarge (by omega)
    have hk' : (k.natAbs : Int) = k := by omega
    have hplus : c ≠ '+' := by rintro rfl; exact absurd hc (by decide)
    have hminus : c ≠ '-' := by rintro rfl; exact absurd hc (by decide)
    calc parseSigned limit (c :: cs)
      _ = (Except.ok k.natAbs).map Int.ofNat := by rw [← hr]; simp [parseSigned, hplus, hminus]
      _ = .ok k := by rw [Except.map, Int.ofNat_eq_natCast, hk']

section Literals

variable {cs : List Char} {k : Int}

/-- One digit or more. -/
def IsDigits (ds : List Char) : Prop := ds ≠ [] ∧ ∀ c ∈ ds, c.isDigit = true

def value (ds : List Char) : Nat := Nat.ofDigitChars 10 ds 0

/-- The characters are a literal of the number `n`. -/
inductive Spells : List Char → Nat → Prop where

  | bare {ds : List Char} : IsDigits ds → Spells ds (value ds)

  | plus {ds : List Char} : IsDigits ds → Spells ('+' :: ds) (value ds)

/-- The characters are a literal of the integer `k`. -/
inductive SpellsInteger : List Char → Int → Prop where

  | unsigned {cs : List Char} {n : Nat} : Spells cs n → SpellsInteger cs n

  | minus {ds : List Char} : IsDigits ds → SpellsInteger ('-' :: ds) (-(value ds : Int))

theorem digit?_eq {c : Char} :
    digit? c = if c.isDigit then some (c.toNat - '0'.toNat) else none := by
  simp [digit?, Char.isDigit, Char.le_def]

theorem le_ofDigitChars (ds : List Char) (n : Nat) : n ≤ Nat.ofDigitChars 10 ds n := by
  induction ds generalizing n with
  | nil => exact Nat.le_refl n
  | cons c ds ih =>
    rw [Nat.ofDigitChars_cons]
    exact Nat.le_trans (by omega) (ih _)

theorem readDigits_eq_ok_iff {acc : Nat} (h : acc ≤ limit) :
    readDigits limit excess acc cs = .ok n ↔
      (∀ c ∈ cs, c.isDigit = true) ∧ Nat.ofDigitChars 10 cs acc = n ∧ n ≤ limit := by
  induction cs generalizing acc with
  | nil =>
    simp only [readDigits, Nat.ofDigitChars_nil, Except.ok.injEq]
    exact ⟨fun he => ⟨by simp, he, he ▸ h⟩, fun he => he.2.1⟩
  | cons c cs ih =>
    rw [readDigits, digit?_eq, List.forall_mem_cons, Nat.ofDigitChars_cons]
    by_cases hc : c.isDigit = true
    · simp only [hc, if_true, true_and]
      split
      · next hlt =>
        simp only [reduceCtorEq, false_iff, not_and]
        rintro - rfl
        exact fun hle => absurd (Nat.le_trans (le_ofDigitChars cs _) hle) (by omega)
      · next hle => exact ih (Nat.not_lt.mp hle)
    · simp [hc]

theorem readDigits_eq_ok_iff_isDigits {ds : List Char} (h : ds ≠ []) :
    readDigits limit excess 0 ds = .ok n ↔ IsDigits ds ∧ value ds = n ∧ n ≤ limit := by
  rw [readDigits_eq_ok_iff (Nat.zero_le limit), IsDigits, value]
  simp only [h, ne_eq, not_false_eq_true, true_and]

theorem spells_plus {ds : List Char} : Spells ('+' :: ds) n ↔ IsDigits ds ∧ value ds = n := by
  constructor
  · intro h
    cases h with
    | bare h => exact absurd (h.2 '+' List.mem_cons_self) (by decide)
    | plus h => exact ⟨h, rfl⟩
  · rintro ⟨h, rfl⟩
    exact .plus h

theorem spells_of_ne {c : Char} (hc : c ≠ '+') :
    Spells (c :: cs) n ↔ IsDigits (c :: cs) ∧ value (c :: cs) = n := by
  constructor
  · intro h
    cases h with
    | bare h => exact ⟨h, rfl⟩
    | plus => exact absurd rfl hc
  · rintro ⟨h, rfl⟩
    exact .bare h

theorem not_isDigits_minus {ds : List Char} : ¬ IsDigits ('-' :: ds) :=
  fun h => absurd (h.2 '-' List.mem_cons_self) (by decide)

theorem parseUnsigned_eq_ok_iff : parseUnsigned limit cs = .ok n ↔ Spells cs n ∧ n ≤ limit := by
  cases cs with
  | nil =>
    refine ⟨nofun, fun ⟨h, _⟩ => ?_⟩
    cases h with
    | bare h => exact absurd rfl h.1
  | cons c ds =>
    by_cases hplus : c = '+'
    · subst hplus
      rw [spells_plus, and_assoc]
      cases ds with
      | nil => exact ⟨nofun, fun h => absurd rfl h.1.1⟩
      | cons d ds => exact readDigits_eq_ok_iff_isDigits (by simp)
    · rw [spells_of_ne hplus, and_assoc]
      by_cases hlone : c = '-' ∧ ds = []
      · obtain ⟨rfl, rfl⟩ := hlone
        exact ⟨nofun, fun h => absurd h.1 not_isDigits_minus⟩
      · rw [← readDigits_eq_ok_iff_isDigits (by simp), parseUnsigned]
        all_goals simp_all

theorem spellsInteger_minus {ds : List Char} :
    SpellsInteger ('-' :: ds) k ↔ IsDigits ds ∧ -(value ds : Int) = k := by
  constructor
  · intro h
    cases h with
    | unsigned h => exact absurd ((spells_of_ne (by decide)).mp h).1 not_isDigits_minus
    | minus h => exact ⟨h, rfl⟩
  · rintro ⟨h, rfl⟩
    exact .minus h

theorem spellsInteger_of_ne {c : Char} (hc : c ≠ '-') :
    SpellsInteger (c :: cs) k ↔ ∃ n, Spells (c :: cs) n ∧ (n : Int) = k := by
  constructor
  · intro h
    cases h with
    | unsigned h => exact ⟨_, h, rfl⟩
    | minus => exact absurd rfl hc
  · rintro ⟨n, h, rfl⟩
    exact .unsigned h

theorem parseSigned_eq_ok_iff : parseSigned limit cs = .ok k ↔
    SpellsInteger cs k ∧ -(limit : Int) - 1 ≤ k ∧ k ≤ limit := by
  have hmap {r : Except Fault Nat} {f : Nat → Int} :
      r.map f = .ok k ↔ ∃ n, r = .ok n ∧ f n = k := by
    cases r <;> simp [Except.map]
  cases cs with
  | nil =>
    refine ⟨nofun, fun ⟨h, _⟩ => ?_⟩
    cases h with
    | unsigned h => exact absurd (parseUnsigned_eq_ok_iff.mpr ⟨h, Nat.le_refl _⟩) nofun
  | cons c ds =>
    by_cases hminus : c = '-'
    · subst hminus
      rw [spellsInteger_minus]
      cases ds with
      | nil => exact ⟨nofun, fun h => absurd rfl h.1.1.1⟩
      | cons d ds =>
        have hread : parseSigned limit ('-' :: d :: ds) =
            (readDigits (limit + 1) .tooSmall 0 (d :: ds)).map (fun n : Nat => -(n : Int)) := by
          rw [parseSigned]
          · cases readDigits (limit + 1) .tooSmall 0 (d :: ds) <;> rfl
          all_goals simp
        simp only [hread, hmap, readDigits_eq_ok_iff_isDigits (List.cons_ne_nil d ds)]
        constructor
        · rintro ⟨n, ⟨hd, rfl, hle⟩, rfl⟩
          exact ⟨⟨hd, rfl⟩, by omega, by omega⟩
        · rintro ⟨⟨hd, rfl⟩, hl, -⟩
          exact ⟨_, ⟨hd, rfl, by omega⟩, rfl⟩
    · have hunsigned : parseSigned limit (c :: ds) =
          (parseUnsigned limit (c :: ds)).map (fun n : Nat => (n : Int)) := by
        by_cases hplus : c = '+'
        · subst hplus
          cases ds <;> rfl
        · rw [parseSigned, parseUnsigned]
          · rfl
          all_goals simp_all
      rw [hunsigned, hmap, spellsInteger_of_ne hminus]
      simp only [parseUnsigned_eq_ok_iff]
      constructor
      · rintro ⟨n, ⟨hs, hle⟩, rfl⟩
        exact ⟨⟨n, hs, rfl⟩, by omega, by omega⟩
      · rintro ⟨⟨n, hs, rfl⟩, -, hu⟩
        exact ⟨n, ⟨hs, by omega⟩, rfl⟩

theorem SpellsInteger.eq {j : Int} (h : SpellsInteger cs j) (h' : SpellsInteger cs k) : j = k := by
  let limit := j.natAbs + k.natAbs
  have hj : parseSigned limit cs = .ok j := parseSigned_eq_ok_iff.mpr ⟨h, by omega, by omega⟩
  have hk : parseSigned limit cs = .ok k := parseSigned_eq_ok_iff.mpr ⟨h', by omega, by omega⟩
  exact Except.ok.inj (hj.symm.trans hk)

theorem Spells.eq {m : Nat} (h : Spells cs m) (h' : Spells cs n) : m = n :=
  Int.ofNat_inj.mp ((SpellsInteger.unsigned h).eq (.unsigned h'))

theorem spellsInteger_signed (k : Int) : SpellsInteger (signed k) k := by
  have h : parseSigned k.natAbs (signed k) = .ok k := parseSigned_signed (by omega) (by omega)
  exact (parseSigned_eq_ok_iff.mp h).1

theorem toLower_of_isDigit {c : Char} (h : c.isDigit = true) : c.toLower = c := by
  rw [Char.isDigit] at h
  simp only [Bool.and_eq_true, decide_eq_true_eq, ge_iff_le] at h
  unfold Char.toLower
  rw [dif_neg]
  · rintro ⟨hl, -⟩
    exact absurd (UInt32.le_trans hl h.2) (by decide)

theorem SpellsInteger.exists_cons (h : SpellsInteger cs k) :
    ∃ c ds, cs = c :: ds ∧ (c.isDigit = true ∨ c = '+' ∨ c = '-') := by
  cases h with
  | unsigned h =>
    cases h with
    | bare h =>
      obtain ⟨c, ds, rfl⟩ := List.exists_cons_of_ne_nil h.1
      exact ⟨c, ds, rfl, .inl (h.2 c List.mem_cons_self)⟩
    | plus => exact ⟨'+', _, rfl, .inr (.inl rfl)⟩
  | minus => exact ⟨'-', _, rfl, .inr (.inr rfl)⟩

theorem SpellsInteger.map_toLower_ne (h : SpellsInteger cs k) {w : Char} {ws : List Char}
    (hw : ¬ (w.isDigit = true ∨ w = '+' ∨ w = '-')) : cs.map Char.toLower ≠ w :: ws := by
  obtain ⟨c, ds, rfl, hc⟩ := h.exists_cons
  rw [List.map_cons, ne_eq, List.cons.injEq]
  rintro ⟨rfl, -⟩
  rcases hc with hd | rfl | rfl
  · exact hw (.inl ((toLower_of_isDigit hd).symm ▸ hd))
  · exact hw (.inr (.inl rfl))
  · exact hw (.inr (.inr rfl))

end Literals

end DelayedQueue.Decimal
