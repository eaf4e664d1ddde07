import Mathlib.Algebra.Group.Nat.Defs
import DelayedQueue.Text.Utf8

/-! # Reading UTF-8

The reader gives back the characters that were written and refuses everything else: bytes
are well formed exactly if they are the written form of some characters.
-/

namespace DelayedQueue.Utf8

/-- The last `k` bytes of a character, six bits of `n` in each. -/
def trail : Nat → Nat → Bytes
  | 0, _ => []
  | k + 1, n => (0x80 + n / 64 ^ k % 64).toUInt8 :: trail k n

section Forms

variable {c : Char}

theorem encodeChar_one (h : c.toNat < 0x80) : encodeChar c = [c.toNat.toUInt8] := by
  simp [encodeChar, h]

theorem encodeChar_two (h : 0x80 ≤ c.toNat) (h' : c.toNat < 0x800) :
    encodeChar c = (0xC0 + c.toNat / 64 ^ 1).toUInt8 :: trail 1 c.toNat := by
  simp [encodeChar, trail, h', Nat.not_lt.mpr h]

theorem encodeChar_three (h : 0x800 ≤ c.toNat) (h' : c.toNat < 0x10000) :
    encodeChar c = (0xE0 + c.toNat / 64 ^ 2).toUInt8 :: trail 2 c.toNat := by
  simp [encodeChar, trail, h', Nat.not_lt.mpr h, show ¬ c.toNat < 0x80 by omega]

theorem encodeChar_four (h : 0x10000 ≤ c.toNat) :
    encodeChar c = (0xF0 + c.toNat / 64 ^ 3).toUInt8 :: trail 3 c.toNat := by
  simp [encodeChar, trail, Nat.not_lt.mpr h, show ¬ c.toNat < 0x80 by omega,
    show ¬ c.toNat < 0x800 by omega]

theorem toNat_toUInt8 {n : Nat} (h : n < 256) : n.toUInt8.toNat = n := by
  simp [Nat.mod_eq_of_lt h]

theorem toNat_ofNat {n : Nat} (h : n < 0xD800 ∨ 0xDFFF < n ∧ n < 0x110000) :
    (Char.ofNat n).toNat = n := by
  have hv : n.isValidChar := h
  rw [Char.ofNat, dif_pos hv]
  rfl

theorem toNat_cases (c : Char) : c.toNat < 0xD800 ∨ 0xDFFF < c.toNat ∧ c.toNat < 0x110000 :=
  c.valid

end Forms

section Inside

variable {n owed bits low high : Nat} {bs : Bytes} {cs : List Char}

theorem six_bits (n owed : Nat) :
    n / 64 ^ (owed + 1) * 64 + (0x80 + n / 64 ^ owed % 64) % 64 = n / 64 ^ owed := by
  rw [Nat.pow_succ, ← Nat.div_div_eq_div_mul]
  omega

theorem step_inside (hl : low ≤ 0x80 + n / 64 ^ owed % 64)
    (hh : 0x80 + n / 64 ^ owed % 64 ≤ high) :
    step (.inside (n / 64 ^ (owed + 1)) owed low high) (0x80 + n / 64 ^ owed % 64).toUInt8 =
      match owed with
      | 0 => .char (Char.ofNat n)
      | owed' + 1 => .more (.inside (n / 64 ^ (owed' + 1)) owed' 0x80 0xBF) := by
  have hb := six_bits n owed
  simp only [step, toNat_toUInt8 (show 0x80 + n / 64 ^ owed % 64 < 256 by omega), hl, hh,
    and_self, if_true, hb]
  cases owed with
  | zero => simp
  | succ owed => rfl

theorem decodeFrom_trail (hl : low ≤ 0x80 + n / 64 ^ owed % 64)
    (hh : 0x80 + n / 64 ^ owed % 64 ≤ high) :
    decodeFrom (.inside (n / 64 ^ (owed + 1)) owed low high) (trail (owed + 1) n ++ bs) =
      (decodeFrom .start bs).map (Char.ofNat n :: ·) := by
  induction owed generalizing low high with
  | zero => simp only [trail, List.cons_append, List.nil_append, decodeFrom, step_inside hl hh]
  | succ owed ih =>
    rw [trail, List.cons_append, decodeFrom, step_inside hl hh]
    exact ih (by omega) (by omega)

/-- What a reader inside a character accepts begins with the rest of that character. -/
theorem of_decodeFrom_inside (hl : 0x80 ≤ low) (hh : high ≤ 0xBF)
    (h : decodeFrom (.inside bits owed low high) bs = some cs) :
    ∃ n rest cs', n / 64 ^ (owed + 1) = bits ∧ low ≤ 0x80 + n / 64 ^ owed % 64 ∧
      0x80 + n / 64 ^ owed % 64 ≤ high ∧ bs = trail (owed + 1) n ++ rest ∧
      decodeFrom .start rest = some cs' ∧ cs = Char.ofNat n :: cs' := by
  induction owed generalizing bits low high bs with
  | zero =>
    cases bs with
    | nil => simp [decodeFrom] at h
    | cons b bs =>
      by_cases hb : low ≤ b.toNat ∧ b.toNat ≤ high
      · simp only [decodeFrom, step, if_pos hb, Option.map_eq_some_iff] at h
        obtain ⟨cs', hcs, rfl⟩ := h
        have he : 0x80 + (bits * 64 + b.toNat % 64) / 64 ^ 0 % 64 = b.toNat := by
          rw [Nat.pow_zero, Nat.div_one]; omega
        refine ⟨bits * 64 + b.toNat % 64, bs, cs', by omega, ?_, ?_, ?_, hcs, rfl⟩
        · rw [he]; exact hb.1
        · rw [he]; exact hb.2
        · rw [trail, he]; simp [trail]
      · simp [decodeFrom, step, hb] at h
  | succ owed ih =>
    cases bs with
    | nil => simp [decodeFrom] at h
    | cons b bs =>
      by_cases hb : low ≤ b.toNat ∧ b.toNat ≤ high
      · simp only [decodeFrom, step, if_pos hb] at h
        obtain ⟨n, rest, cs', hn, -, -, rfl, hr, rfl⟩ := ih (Nat.le_refl _) (Nat.le_refl _) h
        have hq : n / 64 ^ (owed + 1 + 1) = n / 64 ^ (owed + 1) / 64 := by
          rw [Nat.pow_succ 64 (owed + 1), ← Nat.div_div_eq_div_mul]
        have he : 0x80 + n / 64 ^ (owed + 1) % 64 = b.toNat := by omega
        refine ⟨n, rest, cs', by omega, he ▸ hb.1, he ▸ hb.2, ?_, hr, rfl⟩
        rw [trail.eq_2 n (owed + 1), he]
        simp
      · simp [decodeFrom, step, hb] at h

end Inside

section Bytes

variable {b n : Nat} {c : Char}

theorem mem_trail {k : Nat} {x : UInt8} (h : x ∈ trail k n) : 0x80 ≤ x.toNat ∧ x.toNat < 0xC0 := by
  induction k with
  | zero => simp [trail] at h
  | succ k ih =>
    rcases List.mem_cons.mp h with rfl | h
    · rw [toNat_toUInt8 (by omega)]; omega
    · exact ih h

/-- A character is one ASCII byte, or a lead byte with others that cannot lead. -/
theorem encodeChar_cases (c : Char) : c.toNat < 0x80 ∧ encodeChar c = [c.toNat.toUInt8] ∨
    0x80 ≤ c.toNat ∧ ∃ b t, encodeChar c = b :: t ∧ 0xC0 ≤ b.toNat ∧
      ∀ x ∈ t, 0x80 ≤ x.toNat ∧ x.toNat < 0xC0 := by
  have hc := toNat_cases c
  by_cases h₁ : c.toNat < 0x80
  · exact .inl ⟨h₁, encodeChar_one h₁⟩
  refine .inr ⟨Nat.not_lt.mp h₁, ?_⟩
  by_cases h₂ : c.toNat < 0x800
  · exact ⟨_, _, encodeChar_two (Nat.not_lt.mp h₁) h₂, by rw [toNat_toUInt8] <;> omega,
      fun _ => mem_trail⟩
  by_cases h₃ : c.toNat < 0x10000
  · exact ⟨_, _, encodeChar_three (Nat.not_lt.mp h₂) h₃, by rw [toNat_toUInt8] <;> omega,
      fun _ => mem_trail⟩
  · exact ⟨_, _, encodeChar_four (Nat.not_lt.mp h₃), by rw [toNat_toUInt8] <;> omega,
      fun _ => mem_trail⟩

theorem of_encodeChar_append_eq {b : UInt8} {w u : Bytes} (h : encodeChar c ++ w = b :: u) :
    (b.toNat < 0x80 ∨ 0xC0 ≤ b.toNat) ∧ ∃ t, encodeChar c = b :: t ∧ u = t ++ w ∧
      ∀ x ∈ t, 0x80 ≤ x.toNat ∧ x.toNat < 0xC0 := by
  rcases encodeChar_cases c with ⟨hc, he⟩ | ⟨-, b', t, he, hb, ht⟩ <;>
    rw [he, List.cons_append, List.cons.injEq] at h <;> obtain ⟨rfl, rfl⟩ := h
  · refine ⟨.inl ?_, [], he, rfl, by simp⟩
    rwa [toNat_toUInt8 (by omega)]
  · exact ⟨.inr hb, t, he, rfl, ht⟩

theorem mem_encodeChar {x : UInt8} (h : x ∈ encodeChar c) :
    x.toNat = c.toNat ∨ 0x80 ≤ c.toNat ∧ 0x80 ≤ x.toNat := by
  rcases encodeChar_cases c with ⟨hc, he⟩ | ⟨hc, b, t, he, hb, ht⟩
  · rw [he, List.mem_singleton] at h
    exact .inl (h ▸ toNat_toUInt8 (by omega))
  · rw [he] at h
    rcases List.mem_cons.mp h with rfl | h
    · exact .inr ⟨hc, by omega⟩
    · exact .inr ⟨hc, (ht x h).1⟩

end Bytes

section Whole

variable {c : Char} {bs : Bytes} {cs : List Char}

theorem decodeFrom_lead {b : Nat} (hb : b < 256) {p : State} (h : lead b = .more p) :
    decodeFrom .start (b.toUInt8 :: bs) = decodeFrom p bs := by
  simp only [decodeFrom, step, toNat_toUInt8 hb, h]

theorem decodeFrom_encodeChar (c : Char) (bs : Bytes) :
    decodeFrom .start (encodeChar c ++ bs) = (decodeFrom .start bs).map (c :: ·) := by
  have hc := toNat_cases c
  -- the lead byte leaves the reader with the high bits and the range of the next byte
  have hr : ∀ (b owed low high : Nat), b < 256 →
      lead b = .more (.inside (c.toNat / 64 ^ (owed + 1)) owed low high) →
      low ≤ 0x80 + c.toNat / 64 ^ owed % 64 → 0x80 + c.toNat / 64 ^ owed % 64 ≤ high →
      decodeFrom .start (b.toUInt8 :: trail (owed + 1) c.toNat ++ bs) =
        (decodeFrom .start bs).map (c :: ·) := by
    intro b owed low high hb hl hlow hhigh
    rw [List.cons_append, decodeFrom_lead hb hl, decodeFrom_trail hlow hhigh, Char.ofNat_toNat]
  by_cases h₁ : c.toNat < 0x80
  · simp [encodeChar_one h₁, decodeFrom, step, lead, Nat.mod_eq_of_lt (show c.toNat < 256 by omega),
      h₁]
  by_cases h₂ : c.toNat < 0x800
  · rw [encodeChar_two (Nat.not_lt.mp h₁) h₂]
    refine hr _ 0 0x80 0xBF (by omega) ?_ (by omega) (by omega)
    simp only [lead]
    rw [if_neg (by omega), if_neg (by omega), if_pos (by omega)]
    simp
  by_cases h₃ : c.toNat < 0x10000
  · rw [encodeChar_three (Nat.not_lt.mp h₂) h₃]
    refine hr _ 1 (if 0xE0 + c.toNat / 64 ^ 2 = 0xE0 then 0xA0 else 0x80)
      (if 0xE0 + c.toNat / 64 ^ 2 = 0xED then 0x9F else 0xBF) (by omega) ?_ ?_ ?_
    · simp only [lead]
      rw [if_neg (by omega), if_neg (by omega), if_neg (by omega), if_pos (by omega),
        Nat.add_sub_cancel_left]
    · split <;> omega
    · split <;> omega
  · rw [encodeChar_four (Nat.not_lt.mp h₃)]
    refine hr _ 2 (if 0xF0 + c.toNat / 64 ^ 3 = 0xF0 then 0x90 else 0x80)
      (if 0xF0 + c.toNat / 64 ^ 3 = 0xF4 then 0x8F else 0xBF) (by omega) ?_ ?_ ?_
    · simp only [lead]
      rw [if_neg (by omega), if_neg (by omega), if_neg (by omega), if_neg (by omega),
        if_pos (by omega), Nat.add_sub_cancel_left]
    · split <;> omega
    · split <;> omega

theorem of_decode?_encodeChar_append (h : decode? (encodeChar c ++ bs) = some cs) :
    ∃ cs', decode? bs = some cs' ∧ cs = c :: cs' := by
  rw [decode?, decodeFrom_encodeChar] at h
  obtain ⟨cs', hcs, he⟩ := Option.map_eq_some_iff.mp h
  exact ⟨cs', hcs, he.symm⟩

theorem of_decodeFrom_cons {b : UInt8} (h : decodeFrom .start (b :: bs) = some cs) :
    ∃ c rest cs', b :: bs = encodeChar c ++ rest ∧ decodeFrom .start rest = some cs' ∧
      cs = c :: cs' := by
  have hlt := b.toNat_lt
  by_cases h₁ : b.toNat < 0x80
  · simp only [decodeFrom, step, lead, if_pos h₁, Option.map_eq_some_iff] at h
    obtain ⟨cs', hcs, rfl⟩ := h
    have hn := toNat_ofNat (n := b.toNat) (by omega)
    refine ⟨_, bs, cs', ?_, hcs, rfl⟩
    rw [encodeChar_one (by omega), hn]
    simp
  by_cases h₂ : b.toNat < 0xC2
  · simp [decodeFrom, step, lead, h₁, h₂] at h
  by_cases h₃ : b.toNat < 0xE0
  · simp only [decodeFrom, step, lead, if_neg h₁, if_neg h₂, if_pos h₃] at h
    obtain ⟨n, rest, cs', hb, -, -, rfl, hr, rfl⟩ :=
      of_decodeFrom_inside (Nat.le_refl _) (Nat.le_refl _) h
    have hn := toNat_ofNat (n := n) (by omega)
    refine ⟨_, rest, cs', ?_, hr, rfl⟩
    rw [encodeChar_two (by omega) (by omega), hn, hb, Nat.add_sub_cancel' (by omega)]
    simp
  by_cases h₄ : b.toNat < 0xF0
  · simp only [decodeFrom, step, lead, if_neg h₁, if_neg h₂, if_neg h₃, if_pos h₄] at h
    obtain ⟨n, rest, cs', hb, hl, hh, rfl, hr, rfl⟩ :=
      of_decodeFrom_inside (by split <;> omega) (by split <;> omega) h
    have hlow : 0x800 ≤ n := by split at hl <;> omega
    have hhigh : n < 0xD800 ∨ 0xDFFF < n ∧ n < 0x10000 := by split at hh <;> omega
    have hn := toNat_ofNat (n := n) (by omega)
    refine ⟨_, rest, cs', ?_, hr, rfl⟩
    rw [encodeChar_three (by omega) (by omega), hn, hb, Nat.add_sub_cancel' (by omega)]
    simp
  by_cases h₅ : b.toNat < 0xF5
  · simp only [decodeFrom, step, lead, if_neg h₁, if_neg h₂, if_neg h₃, if_neg h₄, if_pos h₅] at h
    obtain ⟨n, rest, cs', hb, hl, hh, rfl, hr, rfl⟩ :=
      of_decodeFrom_inside (by split <;> omega) (by split <;> omega) h
    have hlow : 0x10000 ≤ n := by split at hl <;> omega
    have hhigh : n < 0x110000 := by split at hh <;> omega
    have hn := toNat_ofNat (n := n) (by omega)
    refine ⟨_, rest, cs', ?_, hr, rfl⟩
    rw [encodeChar_four (by omega), hn, hb, Nat.add_sub_cancel' (by omega)]
    simp
  · simp [decodeFrom, step, lead, h₁, h₂, h₃, h₄, h₅] at h

theorem decode?_encodeChars (cs : List Char) : decode? (encodeChars cs) = some cs := by
  induction cs with
  | nil => rfl
  | cons c cs ih =>
    rw [decode?, encodeChars, List.flatMap_cons, decodeFrom_encodeChar]
    exact congrArg _ ih

theorem eq_encodeChars_of_decode? (h : decode? bs = some cs) : bs = encodeChars cs := by
  induction hn : bs.length using Nat.strongRecOn generalizing bs cs with
  | ind n ih =>
    cases bs with
    | nil => cases h; rfl
    | cons b bs =>
      obtain ⟨c, rest, cs', he, hr, rfl⟩ := of_decodeFrom_cons h
      have hl : rest.length < n := by
        have hc : 0 < (encodeChar c).length := by
          rcases encodeChar_cases c with ⟨-, h⟩ | ⟨-, _, _, h, -⟩ <;> simp [h]
        have := congrArg List.length he
        simp only [List.length_append, hn] at this
        omega
      rw [he, ih _ hl hr rfl, encodeChars, encodeChars, List.flatMap_cons]

theorem decode?_eq_some_iff : decode? bs = some cs ↔ bs = encodeChars cs :=
  ⟨eq_encodeChars_of_decode?, fun h => h ▸ decode?_encodeChars cs⟩

end Whole

end DelayedQueue.Utf8
