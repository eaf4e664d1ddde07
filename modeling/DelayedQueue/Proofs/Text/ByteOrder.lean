import DelayedQueue.Proofs.Text.Utf8

/-! # Bytes keep the order of texts

A text that comes before another one by its characters does so by its bytes. The bytes of a
lesser character differ from those of a greater one before either of them ends.
-/

namespace DelayedQueue.Utf8

variable {c d : Char} {u v : Bytes} {n m k : Nat}

theorem lt_toUInt8 {a b : Nat} (h : a < b) (hb : b < 256) : a.toUInt8 < b.toUInt8 := by
  rw [UInt8.lt_iff_toNat_lt, toNat_toUInt8 (by omega), toNat_toUInt8 hb]
  exact h

/-- Of numbers in as many bytes the lesser has the lesser bytes. -/
theorem trail_append_lt (h : n % 64 ^ k < m % 64 ^ k) : trail k n ++ u < trail k m ++ v := by
  induction k with
  | zero => simp [Nat.mod_one] at h
  | succ k ih =>
    have hn := Nat.mod_mul (x := n) (a := 64 ^ k) (b := 64)
    have hm := Nat.mod_mul (x := m) (a := 64 ^ k) (b := 64)
    rw [← Nat.pow_succ] at hn hm
    rw [hn, hm] at h
    rw [trail, trail, List.cons_append, List.cons_append]
    rcases Nat.lt_trichotomy (n / 64 ^ k % 64) (m / 64 ^ k % 64) with hlt | heq | hgt
    · exact .rel (lt_toUInt8 (by omega) (by omega))
    · rw [heq] at h ⊢
      exact .cons (ih (by omega))
    · have hk : n % 64 ^ k < 64 ^ k := Nat.mod_lt n (Nat.pow_pos (by decide))
      have hk' : m % 64 ^ k < 64 ^ k := Nat.mod_lt m (Nat.pow_pos (by decide))
      have := Nat.mul_le_mul_left (64 ^ k) (Nat.succ_le_of_lt hgt)
      rw [Nat.mul_succ] at this
      omega

/-- The same behind lead bytes that hold what the other bytes leave of both numbers. -/
theorem lead_append_lt {base : Nat} (h : n < m) (hb : base + m / 64 ^ k < 256) :
    (base + n / 64 ^ k).toUInt8 :: (trail k n ++ u) <
      (base + m / 64 ^ k).toUInt8 :: (trail k m ++ v) := by
  have hle : n / 64 ^ k ≤ m / 64 ^ k := Nat.div_le_div_right (Nat.le_of_lt h)
  rcases Nat.lt_or_eq_of_le hle with hlt | heq
  · exact .rel (lt_toUInt8 (by omega) hb)
  · rw [heq]
    refine .cons (trail_append_lt ?_)
    have hn := Nat.div_add_mod n (64 ^ k)
    have hm := Nat.div_add_mod m (64 ^ k)
    rw [heq] at hn
    omega

/-- A character is a lead byte and `k` others. The more of these there are, the greater is the
character and the lead byte. -/
theorem exists_lead (c : Char) : ∃ k base, encodeChar c =
    (base + c.toNat / 64 ^ k).toUInt8 :: trail k c.toNat ∧ base + c.toNat / 64 ^ k < 256 ∧
    (k = 0 ∧ base = 0 ∧ c.toNat < 0x80 ∨ k = 1 ∧ base = 0xC0 ∧ 0x80 ≤ c.toNat ∧ c.toNat < 0x800 ∨
      k = 2 ∧ base = 0xE0 ∧ 0x800 ≤ c.toNat ∧ c.toNat < 0x10000 ∨
      k = 3 ∧ base = 0xF0 ∧ 0x10000 ≤ c.toNat) := by
  have hc := toNat_cases c
  by_cases h₁ : c.toNat < 0x80
  · exact ⟨0, 0, by rw [encodeChar_one h₁]; simp [trail], by omega, by omega⟩
  by_cases h₂ : c.toNat < 0x800
  · exact ⟨1, 0xC0, encodeChar_two (Nat.not_lt.mp h₁) h₂, by omega, by omega⟩
  by_cases h₃ : c.toNat < 0x10000
  · exact ⟨2, 0xE0, encodeChar_three (Nat.not_lt.mp h₂) h₃, by omega, by omega⟩
  · exact ⟨3, 0xF0, encodeChar_four (Nat.not_lt.mp h₃), by omega, by omega⟩

theorem encodeChar_append_lt (h : c.toNat < d.toNat) : encodeChar c ++ u < encodeChar d ++ v := by
  obtain ⟨k, base, hc, hcb, hck⟩ := exists_lead c
  obtain ⟨k', base', hd, hdb, hdk⟩ := exists_lead d
  rw [hc, hd, List.cons_append, List.cons_append]
  have hlead : k = k' ∧ base = base' ∨ base + c.toNat / 64 ^ k < base' + d.toNat / 64 ^ k' := by
    rcases hck with ⟨rfl, rfl, hck⟩ | ⟨rfl, rfl, hck⟩ | ⟨rfl, rfl, hck⟩ | ⟨rfl, rfl, hck⟩ <;>
      rcases hdk with ⟨rfl, rfl, hdk⟩ | ⟨rfl, rfl, hdk⟩ | ⟨rfl, rfl, hdk⟩ | ⟨rfl, rfl, hdk⟩ <;>
      omega
  rcases hlead with ⟨rfl, rfl⟩ | hlt
  · exact lead_append_lt h hdb
  · exact .rel (lt_toUInt8 hlt hdb)

theorem encodeChars_lt {cs ds : List Char} (h : cs < ds) : encodeChars cs < encodeChars ds := by
  induction h with
  | @nil d ds =>
    obtain ⟨k, base, hd, -⟩ := exists_lead d
    rw [encodeChars, encodeChars, List.flatMap_cons, hd]
    exact .nil
  | @rel c cs d ds hlt => exact encodeChar_append_lt hlt
  | @cons c cs ds _ ih => exact List.append_left_lt ih

theorem encode_lt {s t : String} (h : s < t) : encode s < encode t := encodeChars_lt h

end DelayedQueue.Utf8
