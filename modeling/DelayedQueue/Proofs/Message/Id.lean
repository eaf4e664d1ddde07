import DelayedQueue.Message.Id

/-! # Ids of one source

The serial number can be read off an id, so no two messages of a source share one.
-/

namespace DelayedQueue.MessageId

variable {n m d : Nat} {cs : List Char}

/-- The number that hexadecimal digits spell. -/
def hexValue (cs : List Char) : Nat := cs.foldl (fun n c => 16 * n + (digit? c).getD 0) 0

theorem hexValue_append : hexValue (cs ++ [Nat.digitChar d]) =
    16 * hexValue cs + (digit? (Nat.digitChar d)).getD 0 := by
  simp [hexValue]

theorem digit?_digitChar (h : d < 16) : digit? (Nat.digitChar d) = some d := by
  have : ∀ d < 16, digit? (Nat.digitChar d) = some d := by decide
  exact this d h

theorem hexValue_toDigits (n : Nat) : hexValue (Nat.toDigits 16 n) = n := by
  induction n using Nat.strongRecOn with
  | ind n ih =>
    rcases Nat.lt_or_ge n 16 with h | h
    · rw [Nat.toDigits_of_lt_base h]
      simp [hexValue, digit?_digitChar h]
    · rw [Nat.toDigits_of_base_le (by decide) h, hexValue_append,
        digit?_digitChar (Nat.mod_lt n (by decide)), ih _ (by omega), Option.getD_some]
      omega

theorem hexValue_zeros (k : Nat) : hexValue (List.replicate k '0' ++ cs) = hexValue cs := by
  have hz : 16 * 0 + (digit? '0').getD 0 = 0 := by decide
  induction k with
  | zero => rfl
  | succ k ih =>
    simpa only [hexValue, List.replicate_succ, List.cons_append, List.foldl_cons, hz] using ih

theorem hexValue_hex (width n : Nat) : hexValue (hex width n) = n :=
  (hexValue_zeros _).trans (hexValue_toDigits n)

theorem Source.id_injective (s : Source) (h : s.id n = s.id m) : n = m := by
  have hd : hex 12 n = hex 12 m := List.append_cancel_left (String.ofList_injective h)
  rw [← hexValue_hex 12 n, hd, hexValue_hex]

end DelayedQueue.MessageId
