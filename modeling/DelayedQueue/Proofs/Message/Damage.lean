import DelayedQueue.Proofs.Json.Depth
import DelayedQueue.Proofs.Message.RoundTrip

/-! # Damaged rows

A written row is a value in braces. Where it ends is therefore in the row itself: a row that is cut
off is not read, and neither is one that something other than blanks comes after, be it a row or
part of one. A row that begins inside the string of another closes that string at its own first
quote, and the letter behind that quote is one that stands in strings alone.
-/

namespace DelayedQueue.Row
open Json (Blanks Scan Braced)

section Rows

variable {m m' : Message} {p s row : Bytes}

theorem braced_encode (m : Message) : Braced (encode m) := (value_encode m).braced rfl

theorem encode_cons (m : Message) : ∃ rest, encode m = 0x7B :: Json.quoteMark :: 0x69 :: rest :=
  ⟨_, rfl⟩

theorem settles_of_decode (h : decode row = .ok m) : (Scan.outside 0).run row = .outside 0 := by
  obtain ⟨t, ht, -⟩ := isRow_of_decode h
  exact ht.balanced.settles 0

theorem blanks_of_element {t : Json.Tree} (h : Json.Element t (encode m ++ s)) : Blanks s := by
  generalize hb : encode m ++ s = bs at h
  obtain ⟨hu, hv, hw⟩ := h
  rename_i u v w
  have hhead : (u ++ (v ++ w)).head? = some 0x7B := by rw [← hb]; rfl
  obtain rfl : u = [] := by
    cases u with
    | nil => rfl
    | cons b u =>
      obtain rfl : b = 0x7B := Option.some.inj hhead
      exact absurd (hu 0x7B List.mem_cons_self) (by decide)
  obtain ⟨b, cs, rfl, -⟩ := hv.head
  have hbraced : Braced (b :: cs) := hv.braced hhead
  -- two texts in braces begin at the same place, and neither begins with the other
  have hprefix : b :: cs <+: encode m ++ s := hb ▸ List.prefix_append _ _
  have heq : b :: cs = encode m := by
    rcases List.prefix_or_prefix_of_prefix hprefix (List.prefix_append (encode m) s) with h | h
    · exact hbraced.eq_of_isPrefix (braced_encode m) h
    · exact ((braced_encode m).eq_of_isPrefix hbraced h).symm
  obtain rfl : s = w := by
    rw [heq, List.nil_append] at hb
    exact List.append_cancel_left hb
  exact hw

theorem decode_encode_append_iff :
    decode (encode m ++ s) = .ok m' ↔ Blanks s ∧ m' = m.floorMillis := by
  have hread (hs : Blanks s) : decode (encode m ++ s) = .ok m.floorMillis := by
    obtain ⟨t, ht, hd⟩ := decode_eq_ok_iff_read.mp (decode_encode m)
    obtain rfl := ht.unique (value_encode m).element
    have hpadded : Json.Element _ ([] ++ (encode m ++ s)) := .padded nofun (value_encode m) hs
    exact decode_eq_ok_iff_read.mpr ⟨_, hpadded, hd⟩
  constructor
  · intro h
    obtain ⟨t, ht, -⟩ := isRow_of_decode h
    have hs := blanks_of_element ht
    rw [hread hs] at h
    exact ⟨hs, (Except.ok.inj h).symm⟩
  · rintro ⟨hs, rfl⟩
    exact hread hs

theorem decode_nil_ne_ok : decode [] ≠ .ok m := by
  intro h
  obtain ⟨t, ht, -⟩ := isRow_of_decode h
  generalize hb : ([] : Bytes) = bs at ht
  obtain ⟨-, hv, -⟩ := ht
  obtain ⟨b, cs, rfl, -⟩ := hv.head
  simp at hb

/-- A cut row leaves a bracket open. -/
theorem decode_prefix_ne_ok (hp : p <+: encode m) (hne : p ≠ encode m) : decode p ≠ .ok m' := by
  intro h
  have hnil : p ≠ [] := by
    rintro rfl
    exact decode_nil_ne_ok h
  exact ((braced_encode m).deep_of_isPrefix hp hnil hne).ne_outside (settles_of_decode h)

/-- The start of a row closes no bracket that is open before it. -/
theorem run_row_ne_outside {c : Scan} (hc : c.Deep 1) (hp : p <+: encode m) :
    c.run p ≠ .outside 0 := by
  obtain ⟨rest, hrow⟩ := encode_cons m
  -- a scan in a string takes the brace for a character and the quote for the end of the string
  have hstring (d : Nat) (c : Scan) (hd : 1 ≤ d) (hc : c.Deep 1)
      (hbrace : c.step 0x7B = .inString d) : c.run p ≠ .outside 0 := by
    match p, hp with
    | [], _ => exact hc.ne_outside
    | [b], hp =>
      obtain rfl : b = 0x7B := by simpa [hrow] using hp
      rw [Scan.run_cons, hbrace]
      exact Scan.Deep.ne_outside hd
    | [b, q], hp =>
      obtain ⟨rfl, rfl⟩ : b = 0x7B ∧ q = Json.quoteMark := by simpa [hrow] using hp
      rw [Scan.run_cons, hbrace]
      exact Scan.Deep.ne_outside hd
    | b :: q :: i :: p, hp =>
      obtain ⟨rfl, rfl, rfl, -⟩ : b = 0x7B ∧ q = Json.quoteMark ∧ i = 0x69 ∧ p <+: rest := by
        simpa [hrow, List.cons_prefix_cons] using hp
      have hlost : ((Scan.inString d).step Json.quoteMark).step 0x69 = .lost := rfl
      rw [Scan.run_cons, hbrace, Scan.run_cons, Scan.run_cons, hlost, Scan.run_lost]
      nofun
  cases c with
  | outside d =>
    have hdeep := ((value_encode m).balanced.stays d).of_isPrefix hp
    exact (hdeep.mono hc).ne_outside
  | inString d | escaped d => exact hstring d _ hc hc rfl
  | lost => exact hc.elim

end Rows

variable {m m' : Message}

/-- A written row that is cut off, or that something other than blanks comes after, is not read. So
no written row begins with another, and where rows run together, each of them cut off anywhere or
whole, nothing is read but a row that stands there alone and whole. -/
theorem damaged_end (m : Message) :
    (∀ p, p <+: encode m → p ≠ encode m → ∃ f, decode p = .error f) ∧
    (∀ s, s ≠ [] → ¬ Blanks s → ∃ f, decode (encode m ++ s) = .error f) ∧
    (∀ m', encode m <+: encode m' → encode m = encode m') ∧
    ∀ m' p p' got, p <+: encode m → p' <+: encode m' → decode (p ++ p') = .ok got →
      p = encode m ∧ p' = [] ∧ got = m.floorMillis ∨
        p = [] ∧ p' = encode m' ∧ got = m'.floorMillis := by
  refine ⟨fun p hp hne => exists_error_of_ne_ok fun _ => decode_prefix_ne_ok hp hne,
    fun s _ hs => exists_error_of_ne_ok fun _ h => hs (decode_encode_append_iff.mp h).1,
    fun m' => (braced_encode m).eq_of_isPrefix (braced_encode m'), fun m' p p' got hp hp' h => ?_⟩
  by_cases hnil : p = []
  · subst hnil
    by_cases hwhole : p' = encode m'
    · rw [hwhole, List.nil_append, decode_encode] at h
      exact .inr ⟨rfl, hwhole, (Except.ok.inj h).symm⟩
    · exact absurd h (decode_prefix_ne_ok hp' hwhole)
  · by_cases hwhole : p = encode m
    · subst hwhole
      obtain ⟨hblanks, hgot⟩ := decode_encode_append_iff.mp h
      refine .inl ⟨rfl, ?_, hgot⟩
      cases p' with
      | nil => rfl
      | cons b p' =>
        obtain ⟨rest, hrow⟩ := encode_cons m'
        obtain rfl : b = 0x7B := (List.cons_prefix_cons.mp (hrow ▸ hp')).1
        exact absurd (hblanks 0x7B List.mem_cons_self) (by decide)
    · have hdeep := (braced_encode m).deep_of_isPrefix hp hnil hwhole
      have hsettled := settles_of_decode h
      rw [Scan.run_append] at hsettled
      exact absurd hsettled (run_row_ne_outside hdeep hp')

/-- A message whose id is a quote. -/
def quoteMessage : Message := ⟨"\"", [12], .epoch, none, none, 3⟩

/-- Its row is not read if it is cut inside the escape of that quote, whatever row comes after the
cut, nor if a blank and a digit come after it. -/
theorem damaged_end_torn :
    (∃ f, decode ((encode quoteMessage).take 8) = .error f) ∧
    (∃ f, decode (encode quoteMessage ++ [0x20, 0x33]) = .error f) ∧
    ∀ m got, decode ((encode quoteMessage).take 8 ++ encode m) ≠ .ok got := by
  have hlength : 8 < (encode quoteMessage).length := by decide +kernel
  have hne : (encode quoteMessage).take 8 ≠ encode quoteMessage := by
    intro h
    have hl := congrArg List.length h
    rw [List.length_take] at hl
    omega
  have hnil : (encode quoteMessage).take 8 ≠ [] := by
    intro h
    have hl := congrArg List.length h
    rw [List.length_take, List.length_nil] at hl
    omega
  obtain ⟨hcut, hmore, -, hrows⟩ := damaged_end quoteMessage
  refine ⟨hcut _ (List.take_prefix 8 _) hne,
    hmore _ (by decide) fun h => absurd (h 0x33 (by decide)) (by decide), fun m got h => ?_⟩
  rcases hrows m _ _ got (List.take_prefix 8 _) List.prefix_rfl h with ⟨h, -⟩ | ⟨h, -⟩
  · exact hne h
  · exact hnil h

end DelayedQueue.Row
