import DelayedQueue.Json.Text
import DelayedQueue.Proofs.Text.Utf8

/-! # The grammar of JSON strings

What may stand between two quotes, and which characters it denotes. The scanner finds
exactly such bodies, and the reader gives exactly the characters denoted; a body that denotes
nothing, because of a lone surrogate or ill-formed UTF-8, can still be scanned.
-/

namespace DelayedQueue.Json

inductive HexDigit : UInt8 → Nat → Prop where
  | decimal {n : Nat} : n < 10 → HexDigit (0x30 + n).toUInt8 n
  | upper {n : Nat} : n < 6 → HexDigit (0x41 + n).toUInt8 (10 + n)
  | lower {n : Nat} : n < 6 → HexDigit (0x61 + n).toUInt8 (10 + n)

/-- Four hexadecimal digits and their value. -/
def HexUnit (p q r s : UInt8) (n : Nat) : Prop :=
  ∃ a b c d, HexDigit p a ∧ HexDigit q b ∧ HexDigit r c ∧ HexDigit s d ∧
    n = ((a * 16 + b) * 16 + c) * 16 + d

/-- The letters that may follow a backslash, with what they stand for. -/
def shortEscapes : List (UInt8 × Char) :=
  [(0x22, '"'), (0x5C, '\\'), (0x2F, '/'), (0x62, '\x08'), (0x66, '\x0c'), (0x6E, '\n'),
    (0x72, '\r'), (0x74, '\t')]

namespace Text

def HighSurrogate (n : Nat) : Prop := 0xD800 ≤ n ∧ n ≤ 0xDBFF
def LowSurrogate (n : Nat) : Prop := 0xDC00 ≤ n ∧ n ≤ 0xDFFF

/-- What may stand between two quotes. -/
inductive Body : Bytes → Prop where

  | nil : Body []

  | plain {b : UInt8} {bs : Bytes} : 0x20 ≤ b → b ≠ quoteMark → b ≠ backslash → Body bs →
      Body (b :: bs)

  | short {e : UInt8} {c : Char} {bs : Bytes} : (e, c) ∈ shortEscapes → Body bs →
      Body (backslash :: e :: bs)

  | unit {p q r s : UInt8} {n : Nat} {bs : Bytes} : HexUnit p q r s n → Body bs →
      Body (backslash :: 0x75 :: p :: q :: r :: s :: bs)

/-- The characters that a body denotes. -/
inductive Denotes : Bytes → List Char → Prop where

  | nil : Denotes [] []

  | plain {c : Char} {bs : Bytes} {cs : List Char} : 0x20 ≤ c.toNat → c ≠ '"' → c ≠ '\\' →
      Denotes bs cs → Denotes (Utf8.encodeChar c ++ bs) (c :: cs)

  | short {e : UInt8} {c : Char} {bs : Bytes} {cs : List Char} : (e, c) ∈ shortEscapes →
      Denotes bs cs → Denotes (backslash :: e :: bs) (c :: cs)

  | unit {p q r s : UInt8} {n : Nat} {bs : Bytes} {cs : List Char} : HexUnit p q r s n →
      ¬ HighSurrogate n → ¬ LowSurrogate n → Denotes bs cs →
      Denotes (backslash :: 0x75 :: p :: q :: r :: s :: bs) (Char.ofNat n :: cs)

  | pair {p q r s p' q' r' s' : UInt8} {n m : Nat} {bs : Bytes} {cs : List Char} :
      HexUnit p q r s n → HighSurrogate n → HexUnit p' q' r' s' m → LowSurrogate m →
      Denotes bs cs →
      Denotes (backslash :: 0x75 :: p :: q :: r :: s ::
          backslash :: 0x75 :: p' :: q' :: r' :: s' :: bs)
        (Char.ofNat (0x10000 + (n - 0xD800) * 0x400 + (m - 0xDC00)) :: cs)

end Text

section Tables

theorem hexDigit?_eq_some_iff {b : UInt8} {n : Nat} : hexDigit? b = some n ↔ HexDigit b n := by
  constructor
  · intro h
    have hb : b = b.toNat.toUInt8 := by simp
    simp only [hexDigit?] at h
    split at h
    · obtain ⟨k, hk⟩ := Nat.exists_eq_add_of_le (show 0x30 ≤ b.toNat by omega)
      obtain rfl : k = n := by simp at h; omega
      rw [hb, hk]; exact .decimal (by omega)
    · split at h
      · obtain ⟨k, hk⟩ := Nat.exists_eq_add_of_le (show 0x41 ≤ b.toNat by omega)
        obtain rfl : 10 + k = n := by simp at h; omega
        rw [hb, hk]; exact .upper (by omega)
      · split at h
        · obtain ⟨k, hk⟩ := Nat.exists_eq_add_of_le (show 0x61 ≤ b.toNat by omega)
          obtain rfl : 10 + k = n := by simp at h; omega
          rw [hb, hk]; exact .lower (by omega)
        · simp at h
  · have hd : ∀ n < 10, hexDigit? (0x30 + n).toUInt8 = some n := by decide
    have hu : ∀ n < 6, hexDigit? (0x41 + n).toUInt8 = some (10 + n) := by decide
    have hl : ∀ n < 6, hexDigit? (0x61 + n).toUInt8 = some (10 + n) := by decide
    rintro (h | h | h)
    · exact hd _ h
    · exact hu _ h
    · exact hl _ h

theorem hexUnit?_eq_some_iff {p q r s : UInt8} {n : Nat} :
    hexUnit? p q r s = some n ↔ HexUnit p q r s n := by
  unfold hexUnit? HexUnit
  simp only [← hexDigit?_eq_some_iff]
  constructor
  · intro h
    split at h
    · next a b c d ha hb hc hd => exact ⟨a, b, c, d, ha, hb, hc, hd, (Option.some.inj h).symm⟩
    · simp at h
  · rintro ⟨a, b, c, d, ha, hb, hc, hd, rfl⟩
    rw [ha, hb, hc, hd]

theorem of_mem_shortEscapes {e : UInt8} {c : Char} (h : (e, c) ∈ shortEscapes) :
    shortEscape? e = some c.toNat.toUInt8 ∧ c.toNat < 0x80 ∧ e ≠ 0x75 := by
  have ht : ∀ l ∈ shortEscapes,
      shortEscape? l.1 = some l.2.toNat.toUInt8 ∧ l.2.toNat < 0x80 ∧ l.1 ≠ 0x75 := by decide
  exact ht _ h

theorem mem_shortEscapes {e b : UInt8} (h : shortEscape? e = some b) :
    (e, Char.ofNat b.toNat) ∈ shortEscapes := by
  unfold shortEscape? at h
  split at h
  all_goals first | cases h; decide | simp at h

end Tables

namespace Text

section Scanning

variable {b e p q r s : UInt8} {n : Nat} {c : Char} {bs body rest : Bytes}

theorem scanBody_quote : scanBody (quoteMark :: bs) = some ([], bs) := by
  rw [scanBody.eq_def]; simp

theorem scanBody_plain (h : 0x20 ≤ b) (hq : b ≠ quoteMark) (hb : b ≠ backslash) :
    scanBody (b :: bs) = (scanBody bs).map fun (body, rest) => (b :: body, rest) := by
  rw [scanBody.eq_def]
  simp only [if_neg hq, if_neg hb, if_neg (Std.not_lt.mpr h)]

theorem scanBody_short (h : (e, c) ∈ shortEscapes) : scanBody (backslash :: e :: bs) =
    (scanBody bs).map fun (body, rest) => (backslash :: e :: body, rest) := by
  obtain ⟨hs, -, he⟩ := of_mem_shortEscapes h
  rw [scanBody.eq_def]
  simp only [backslash, quoteMark]
  rw [if_neg (by decide), if_pos trivial]
  split
  · next hh => cases hh
  · next hh => cases hh; exact absurd rfl he
  · next hh => cases hh; rw [hs]

theorem scanBody_unit (h : HexUnit p q r s n) :
    scanBody (backslash :: 0x75 :: p :: q :: r :: s :: bs) = (scanBody bs).map fun (body, rest) =>
      (backslash :: 0x75 :: p :: q :: r :: s :: body, rest) := by
  rw [scanBody.eq_def]
  simp [backslash, quoteMark, hexUnit?_eq_some_iff.mpr h]

theorem Body.scanBody (h : Body body) (rest : Bytes) :
    scanBody (body ++ quoteMark :: rest) = some (body, rest) := by
  induction h with
  | nil => exact scanBody_quote
  | plain hb hq hs _ ih => rw [List.cons_append, scanBody_plain hb hq hs, ih]; rfl
  | short he _ ih => rw [List.cons_append, List.cons_append, scanBody_short he, ih]; rfl
  | unit hn _ ih => simp only [List.cons_append, scanBody_unit hn, ih]; rfl

theorem of_scanBody (h : scanBody bs = some (body, rest)) :
    Body body ∧ bs = body ++ quoteMark :: rest := by
  fun_induction scanBody bs generalizing body with
  | case1 => cases h
  | case2 bs => cases h; exact ⟨.nil, rfl⟩
  | case3 => cases h
  | case4 => cases h
  | case5 p q r s bs n hn _ ih =>
    obtain ⟨⟨body', rest'⟩, hs, he⟩ := Option.map_eq_some_iff.mp h
    cases he
    obtain ⟨hb, rfl⟩ := ih hs
    exact ⟨.unit (hexUnit?_eq_some_iff.mp hn) hb, rfl⟩
  | case6 => cases h
  | case7 e bs _ c he _ ih =>
    obtain ⟨⟨body', rest'⟩, hs, he'⟩ := Option.map_eq_some_iff.mp h
    cases he'
    obtain ⟨hb, rfl⟩ := ih hs
    exact ⟨.short (mem_shortEscapes he) hb, rfl⟩
  | case8 => cases h
  | case9 b bs hq hs hl ih =>
    obtain ⟨⟨body', rest'⟩, hs', he⟩ := Option.map_eq_some_iff.mp h
    cases he
    obtain ⟨hb, rfl⟩ := ih hs'
    exact ⟨.plain (Std.not_lt.mp hl) hq hs hb, rfl⟩

end Scanning

section Reading

variable {b e p q r s p' q' r' s' : UInt8} {n m : Nat} {c : Char} {bs body u : Bytes}
  {cs : List Char}

theorem isHighSurrogate_iff : isHighSurrogate n = true ↔ HighSurrogate n := by
  simp [isHighSurrogate, HighSurrogate]; omega

theorem isLowSurrogate_iff : isLowSurrogate n = true ↔ LowSurrogate n := by
  simp [isLowSurrogate, LowSurrogate]; omega

theorem unescape_plain (h : b ≠ backslash) :
    unescape (b :: bs) = (unescape bs).map (b :: ·) := by
  rw [unescape.eq_def]; simp only [if_neg h]

theorem unescape_short (h : (e, c) ∈ shortEscapes) :
    unescape (backslash :: e :: bs) = (unescape bs).map (Utf8.encodeChar c ++ ·) := by
  obtain ⟨hs, hc, he⟩ := of_mem_shortEscapes h
  rw [unescape.eq_3 _ _ _ fun _ _ _ _ _ h' _ => he h', if_pos rfl, hs, Utf8.encodeChar_one hc]
  rfl

theorem unescape_unit (h : HexUnit p q r s n) (hh : ¬ HighSurrogate n) (hl : ¬ LowSurrogate n) :
    unescape (backslash :: 0x75 :: p :: q :: r :: s :: bs) =
      (unescape bs).map (Utf8.encodeChar (Char.ofNat n) ++ ·) := by
  rw [← isHighSurrogate_iff] at hh
  rw [← isLowSurrogate_iff] at hl
  simp [unescape, hexUnit?_eq_some_iff.mpr h, hh, hl]

theorem unescape_pair (h : HexUnit p q r s n) (hh : HighSurrogate n) (h' : HexUnit p' q' r' s' m)
    (hl : LowSurrogate m) :
    unescape (backslash :: 0x75 :: p :: q :: r :: s ::
        backslash :: 0x75 :: p' :: q' :: r' :: s' :: bs) =
      (unescape bs).map
        (Utf8.encodeChar (Char.ofNat (0x10000 + (n - 0xD800) * 0x400 + (m - 0xDC00))) ++ ·) := by
  rw [← isHighSurrogate_iff] at hh
  rw [← isLowSurrogate_iff] at hl
  simp [unescape, backslash, hexUnit?_eq_some_iff.mpr h, hexUnit?_eq_some_iff.mpr h', hh, hl]

theorem unescape_append {t : Bytes} (h : ∀ x ∈ t, x ≠ backslash) :
    unescape (t ++ bs) = (unescape bs).map (t ++ ·) := by
  induction t with
  | nil => simp
  | cons x t ih =>
    rw [List.cons_append, unescape_plain (h x (by simp)), ih fun y hy => h y (by simp [hy])]
    simp [Function.comp_def]

theorem Body.append {t : Bytes} (h : ∀ x ∈ t, 0x20 ≤ x ∧ x ≠ quoteMark ∧ x ≠ backslash)
    (hb : Body bs) : Body (t ++ bs) := by
  induction t with
  | nil => exact hb
  | cons x t ih =>
    obtain ⟨hx, hq, hs⟩ := h x (by simp)
    exact .plain hx hq hs (ih fun y hy => h y (by simp [hy]))

/-- No byte of a character that need not be escaped has a meaning of its own. -/
theorem mem_encodeChar_plain (hc : 0x20 ≤ c.toNat) (hq : c ≠ '"') (hs : c ≠ '\\') :
    ∀ x ∈ Utf8.encodeChar c, 0x20 ≤ x ∧ x ≠ quoteMark ∧ x ≠ backslash := by
  intro x hx
  have hq' : c.toNat ≠ 0x22 := fun h => hq (Char.toNat_inj.mp h)
  have hs' : c.toNat ≠ 0x5C := fun h => hs (Char.toNat_inj.mp h)
  have hn := Utf8.mem_encodeChar hx
  refine ⟨UInt8.le_iff_toNat_le.mpr ?_, ?_, ?_⟩
  · show 32 ≤ x.toNat; omega
  · rintro rfl; simp only [quoteMark, UInt8.reduceToNat] at hn; omega
  · rintro rfl; simp only [backslash, UInt8.reduceToNat] at hn; omega

theorem plain_of_mem_encodeChar {x : UInt8} (h : x ∈ Utf8.encodeChar c) (hx : 0x20 ≤ x)
    (hq : x ≠ quoteMark) (hs : x ≠ backslash) : 0x20 ≤ c.toNat ∧ c ≠ '"' ∧ c ≠ '\\' := by
  have hn := Utf8.mem_encodeChar h
  have hx' : 0x20 ≤ x.toNat := UInt8.le_iff_toNat_le.mp hx
  refine ⟨by omega, ?_, ?_⟩
  · rintro rfl
    refine hq (UInt8.toNat_inj.mp (hn.resolve_right fun h => ?_))
    exact absurd h.1 (by decide)
  · rintro rfl
    refine hs (UInt8.toNat_inj.mp (hn.resolve_right fun h => ?_))
    exact absurd h.1 (by decide)

/-- What denotes characters can be scanned, and reads as their written form. -/
theorem Denotes.unescape (h : Denotes body cs) :
    Body body ∧ unescape body = some (Utf8.encodeChars cs) := by
  induction h with
  | nil => exact ⟨.nil, rfl⟩
  | plain hc hq hs _ ih =>
    have hm := mem_encodeChar_plain hc hq hs
    refine ⟨ih.1.append hm, ?_⟩
    rw [unescape_append fun x hx => (hm x hx).2.2, ih.2]
    simp [Utf8.encodeChars]
  | short he _ ih =>
    refine ⟨.short he ih.1, ?_⟩
    rw [unescape_short he, ih.2]
    simp [Utf8.encodeChars]
  | unit hn hh hl _ ih =>
    refine ⟨.unit hn ih.1, ?_⟩
    rw [unescape_unit hn hh hl, ih.2]
    simp [Utf8.encodeChars]
  | pair hn hh hm hl _ ih =>
    refine ⟨.unit hn (.unit hm ih.1), ?_⟩
    rw [unescape_pair hn hh hm hl, ih.2]
    simp [Utf8.encodeChars]

theorem Denotes.chars_unique {cs' : List Char} (h : Denotes body cs) (h' : Denotes body cs') :
    cs = cs' := by
  have hu := h.unescape.2
  rw [h'.unescape.2] at hu
  have := Utf8.decode?_encodeChars cs
  rw [← Option.some.inj hu, Utf8.decode?_encodeChars] at this
  exact (Option.some.inj this).symm

/-- What an escape of four digits reads as: a character of its own, or half of one. -/
theorem of_unescape_unit (hn : HexUnit p q r s n)
    (h : unescape (backslash :: 0x75 :: p :: q :: r :: s :: bs) = some u) :
    (¬ HighSurrogate n ∧ ¬ LowSurrogate n ∧ ∃ u', unescape bs = some u' ∧
      u = Utf8.encodeChar (Char.ofNat n) ++ u') ∨
    (HighSurrogate n ∧ ∃ p' q' r' s' m bs' u', HexUnit p' q' r' s' m ∧ LowSurrogate m ∧
      bs = backslash :: 0x75 :: p' :: q' :: r' :: s' :: bs' ∧ unescape bs' = some u' ∧
      u = Utf8.encodeChar (Char.ofNat (0x10000 + (n - 0xD800) * 0x400 + (m - 0xDC00))) ++ u') := by
  rw [unescape.eq_2, if_pos rfl, hexUnit?_eq_some_iff.mpr hn] at h
  simp only at h
  split at h
  · next hh =>
    rw [isHighSurrogate_iff] at hh
    split at h
    · next p' q' r' s' bs' =>
      split at h
      · cases h
      · next m hm =>
        split at h
        · next hl =>
          rw [isLowSurrogate_iff] at hl
          obtain ⟨u', hu, rfl⟩ := Option.map_eq_some_iff.mp h
          exact .inr ⟨hh, p', q', r', s', m, bs', u', hexUnit?_eq_some_iff.mp hm, hl, rfl, hu, rfl⟩
        · cases h
    · cases h
  · next hh =>
    rw [isHighSurrogate_iff] at hh
    split at h
    · cases h
    · next hl =>
      rw [isLowSurrogate_iff] at hl
      obtain ⟨u', hu, rfl⟩ := Option.map_eq_some_iff.mp h
      exact .inl ⟨hh, hl, u', hu, rfl⟩

theorem Body.of_unit (h : Body (backslash :: 0x75 :: p :: q :: r :: s :: bs)) : Body bs := by
  cases h with
  | plain _ _ hs => exact absurd rfl hs
  | short he => exact absurd rfl (of_mem_shortEscapes he).2.2
  | unit _ hb => exact hb

/-- A byte that cannot lead a character is read only from itself. -/
theorem of_unescape_cons {x : UInt8} (hx : 0x80 ≤ x.toNat ∧ x.toNat < 0xC0) (hb : Body bs)
    (h : unescape bs = some (x :: u)) :
    ∃ bs', bs = x :: bs' ∧ Body bs' ∧ unescape bs' = some u := by
  have hne : ∀ (c : Char) (u' : Bytes), x :: u ≠ Utf8.encodeChar c ++ u' := by
    intro c u' he
    have := (Utf8.of_encodeChar_append_eq he.symm).1
    omega
  cases hb with
  | nil => cases h
  | plain _ _ hs hb =>
    rw [unescape_plain hs] at h
    obtain ⟨u', hu, he⟩ := Option.map_eq_some_iff.mp h
    cases he
    exact ⟨_, rfl, hb, hu⟩
  | short he hb =>
    rw [unescape_short he] at h
    obtain ⟨u', -, hu⟩ := Option.map_eq_some_iff.mp h
    exact absurd hu.symm (hne _ _)
  | unit hn hb =>
    rcases of_unescape_unit hn h with ⟨-, -, u', -, hu⟩ | ⟨-, _, _, _, _, _, _, u', -, -, -, -, hu⟩
    · exact absurd hu (hne _ _)
    · exact absurd hu (hne _ _)

theorem of_unescape_append {t : Bytes} (ht : ∀ x ∈ t, 0x80 ≤ x.toNat ∧ x.toNat < 0xC0)
    (hb : Body bs) (h : unescape bs = some (t ++ u)) :
    ∃ bs', bs = t ++ bs' ∧ Body bs' ∧ unescape bs' = some u := by
  induction t generalizing bs with
  | nil => exact ⟨bs, rfl, hb, h⟩
  | cons x t ih =>
    obtain ⟨bs₁, rfl, hb₁, h₁⟩ := of_unescape_cons (ht x (by simp)) hb h
    obtain ⟨bs', rfl, hb', h'⟩ := ih (fun y hy => ht y (by simp [hy])) hb₁ h₁
    exact ⟨bs', rfl, hb', h'⟩

/-- A body that reads as well-formed UTF-8 denotes the characters of it. -/
theorem denotes_of_unescape (hb : Body body) (hu : unescape body = some u)
    (hd : Utf8.decode? u = some cs) : Denotes body cs := by
  induction hl : body.length using Nat.strongRecOn generalizing body u cs with
  | ind l ih =>
    cases hb with
    | nil => cases hu; cases hd; exact .nil
    | @plain b bs h₀ hq hs hb =>
      rw [unescape_plain hs] at hu
      obtain ⟨u', hu', rfl⟩ := Option.map_eq_some_iff.mp hu
      -- the bytes of the character after its first are read only from themselves
      obtain ⟨c, w, cs', he, hw, rfl⟩ := Utf8.of_decodeFrom_cons hd
      obtain ⟨-, t, hct, rfl, ht⟩ := Utf8.of_encodeChar_append_eq he.symm
      obtain ⟨bs', rfl, hb', hu''⟩ := of_unescape_append ht hb hu'
      obtain ⟨hc, hcq, hcs⟩ := plain_of_mem_encodeChar (c := c) (by simp [hct]) h₀ hq hs
      rw [← List.cons_append, ← hct]
      refine .plain hc hcq hcs (ih _ ?_ hb' hu'' hw rfl)
      simp only [← hl, List.length_cons, List.length_append]
      omega
    | short he hb =>
      rw [unescape_short he] at hu
      obtain ⟨u', hu', rfl⟩ := Option.map_eq_some_iff.mp hu
      obtain ⟨cs', hd', rfl⟩ := Utf8.of_decode?_encodeChar_append hd
      refine .short he (ih _ ?_ hb hu' hd' rfl)
      simp only [← hl, List.length_cons]
      omega
    | unit hn hb =>
      rcases of_unescape_unit hn hu with
        ⟨hh, hlo, u', hu', he⟩ | ⟨hh, _, _, _, _, _, bs', u', hm, hlo, rfl, hu', he⟩ <;>
        rw [he] at hd
      · obtain ⟨cs', hd', rfl⟩ := Utf8.of_decode?_encodeChar_append hd
        refine .unit hn hh hlo (ih _ ?_ hb hu' hd' rfl)
        simp only [← hl, List.length_cons]
        omega
      · obtain ⟨cs', hd', rfl⟩ := Utf8.of_decode?_encodeChar_append hd
        refine .pair hn hh hm hlo (ih _ ?_ hb.of_unit hu' hd' rfl)
        simp only [← hl, List.length_cons]
        omega

theorem value?_eq_some_iff {t : Text} {v : String} (hb : Body t.body) :
    t.value? = some v ↔ Denotes t.body v.toList := by
  unfold value?
  constructor
  · intro h
    split at h
    · cases h
    · next u hu =>
      obtain ⟨cs, hd, rfl⟩ := Option.map_eq_some_iff.mp h
      rw [String.toList_ofList]
      exact denotes_of_unescape hb hu hd
  · intro h
    rw [h.unescape.2]
    simp only [Utf8.decode?_eq_some_iff.mpr rfl, Option.map_some, String.ofList_toList]

end Reading

end Text

end DelayedQueue.Json
