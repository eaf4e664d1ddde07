import Mathlib.Data.List.TakeWhile
import DelayedQueue.Json.Tree
import DelayedQueue.Proofs.Json.Numeral
import DelayedQueue.Proofs.Json.Text

/-! # The grammar of JSON

Which bytes are a text of which tree. The grammar says nothing of how a text is read: the
reader is sound and complete for it, and the fuel it is given never runs out.
-/

namespace DelayedQueue.Json

def Blanks (ws : Bytes) : Prop := ∀ b ∈ ws, isBlank b = true

mutual

/-- A value from its first byte to its last. -/
inductive Value : Tree → Bytes → Prop where

  | literal {word : Bytes} {t : Tree} : (word, t) ∈ literals → Value t word

  | number {n : Numeral} {bs : Bytes} : n.Spells bs → Value (.number n) bs

  | string {t : Text} : Text.Body t.body → Value (.string t) (quoteMark :: (t.body ++ [quoteMark]))

  | emptyArray {ws : Bytes} : Blanks ws → Value (.array [] true) (0x5B :: (ws ++ [0x5D]))

  | array {ts : List Tree} {bs : Bytes} : Elements ts bs →
      Value (.array ts true) (0x5B :: (bs ++ [0x5D]))

  | emptyObject {ws : Bytes} : Blanks ws → Value (.object [] true) (0x7B :: (ws ++ [0x7D]))

  | object {ms : List (Text × Tree)} {bs : Bytes} : Members ms bs →
      Value (.object ms true) (0x7B :: (bs ++ [0x7D]))

/-- A value with blanks around it. -/
inductive Element : Tree → Bytes → Prop where

  | padded {u v w : Bytes} {t : Tree} : Blanks u → Value t v → Blanks w → Element t (u ++ (v ++ w))

inductive Elements : List Tree → Bytes → Prop where

  | last {t : Tree} {bs : Bytes} : Element t bs → Elements [t] bs

  | cons {t : Tree} {ts : List Tree} {bs cs : Bytes} : Element t bs → Elements ts cs →
      Elements (t :: ts) (bs ++ 0x2C :: cs)

inductive Member : Text → Tree → Bytes → Prop where

  | keyed {u v bs : Bytes} {k : Text} {t : Tree} : Blanks u → Text.Body k.body → Blanks v →
      Element t bs → Member k t (u ++ quoteMark :: (k.body ++ quoteMark :: (v ++ 0x3A :: bs)))

inductive Members : List (Text × Tree) → Bytes → Prop where

  | last {k : Text} {t : Tree} {bs : Bytes} : Member k t bs → Members [(k, t)] bs

  | cons {k : Text} {t : Tree} {ms : List (Text × Tree)} {bs cs : Bytes} : Member k t bs →
      Members ms cs → Members ((k, t) :: ms) (bs ++ 0x2C :: cs)

end

section Blanks

variable {b : UInt8} {ws bs rest : Bytes}

theorem skipBlanks_blanks (h : Blanks ws) : skipBlanks (ws ++ rest) = skipBlanks rest :=
  List.dropWhile_append_of_pos h

theorem skipBlanks_cons (h : isBlank b = false) : skipBlanks (b :: bs) = b :: bs := by
  simp [skipBlanks, h]

theorem skipBlanks_split (bs : Bytes) : ∃ ws, Blanks ws ∧ bs = ws ++ skipBlanks bs :=
  ⟨bs.takeWhile isBlank, List.all_eq_true.mp List.all_takeWhile,
    List.takeWhile_append_dropWhile.symm⟩

theorem skipBlanks_eq (h : skipBlanks bs = rest) : ∃ ws, Blanks ws ∧ bs = ws ++ rest :=
  h ▸ skipBlanks_split bs

theorem endsClean_iff {r : Option Bytes} : endsClean r = true ↔ ∃ ws, r = some ws ∧ Blanks ws := by
  cases r with
  | none => simp [endsClean]
  | some ws => simp [endsClean, skipBlanks, Blanks, List.dropWhile_eq_nil_iff]

theorem delimits_cons (h : isDigit b = false ∧ b ≠ 0x2E ∧ b ≠ 0x65 ∧ b ≠ 0x45) :
    Numeral.Delimits (b :: bs) := by
  rintro _ ⟨⟩; exact h

theorem delimits_of_isBlank (h : isBlank b = true) : Numeral.Delimits (b :: bs) := by
  apply delimits_cons
  simp only [isBlank, Bool.or_eq_true, beq_iff_eq] at h
  rcases h with ((rfl | rfl) | rfl) | rfl <;> decide

theorem delimits_append (h : Blanks ws) (hr : Numeral.Delimits rest) :
    Numeral.Delimits (ws ++ rest) := by
  cases ws with
  | nil => exact hr
  | cons b ws => exact delimits_of_isBlank (h b List.mem_cons_self)

end Blanks

section Scalars

variable {t : Tree} {n : Numeral} {word bs rest : Bytes}

theorem Numeral.Spells.head (h : n.Spells bs) :
    ∃ b cs, bs = b :: cs ∧ (isDigit b = true ∨ b = 0x2D) := by
  obtain ⟨negative, whole, places, exponent⟩ := n
  obtain ⟨hw, ps, es, -, -, rfl⟩ := h
  cases negative with
  | true => exact ⟨0x2D, _, rfl, .inr rfl⟩
  | false =>
    cases hw with
    | zero => exact ⟨0x30, _, rfl, .inl rfl⟩
    | nonzero hd => exact ⟨_, _, rfl, .inl hd⟩

theorem readScalar_literal (h : (word, t) ∈ literals) (rest : Bytes) :
    readScalar (word ++ rest) = (t, some rest) := by
  simp only [literals, List.mem_cons, Prod.mk.injEq, List.not_mem_nil, or_false] at h
  rcases h with ⟨rfl, rfl⟩ | ⟨rfl, rfl⟩ | ⟨rfl, rfl⟩ <;> rfl

theorem readScalar_number (h : n.Spells bs) (hr : Numeral.Delimits rest) :
    readScalar (bs ++ rest) = (.number n, some rest) := by
  have hl : literals.find? (fun l => l.1.isPrefixOf (bs ++ rest)) = none := by
    obtain ⟨b, cs, rfl, hb⟩ := h.head
    have hw : ∀ l ∈ literals, ∃ c w, l.1 = c :: w ∧ isDigit c = false ∧ c ≠ 0x2D := by
      intro l hl
      simp only [literals, List.mem_cons, List.not_mem_nil, or_false] at hl
      rcases hl with rfl | rfl | rfl <;> exact ⟨_, _, rfl, by decide, by decide⟩
    rw [List.find?_eq_none]
    intro l hl hp
    obtain ⟨c, w, hc, h₁, h₂⟩ := hw l hl
    rw [hc] at hp
    obtain ⟨r, hr⟩ := List.isPrefixOf_iff_prefix.mp hp
    have hcb : c = b := by simpa using congrArg List.head? hr
    rcases hb with hb | hb
    · rw [← hcb, h₁] at hb; cases hb
    · exact h₂ (hcb.trans hb)
  unfold readScalar
  rw [hl]
  simp [h.scan? hr]

theorem of_readScalar (h : readScalar bs = (t, some rest)) : ∃ v, Value t v ∧ bs = v ++ rest := by
  unfold readScalar at h
  split at h
  · next word t hf =>
    cases h
    have hp : word.isPrefixOf bs = true := by simpa using List.find?_some hf
    obtain ⟨r, rfl⟩ := List.isPrefixOf_iff_prefix.mp hp
    exact ⟨word, .literal (List.mem_of_find?_eq_some hf), by rw [List.drop_left]⟩
  · split at h
    · next n r hs =>
      cases h
      obtain ⟨w, hw, rfl⟩ := Numeral.of_scan? hs
      exact ⟨w, .number hw, rfl⟩
    · cases h

end Scalars

section Steps

variable {fuel : Nat} {bs rest : Bytes}

theorem scan?_body {k : Text} (h : Text.Body k.body) :
    Text.scan? (k.body ++ quoteMark :: rest) = some (k, rest) := by
  simp [Text.scan?, h.scanBody]

theorem not_blank_of_skipBlanks {b : UInt8} (h : skipBlanks bs = b :: rest) :
    isBlank b = false := by
  have hd := List.head?_dropWhile_not isBlank bs
  rw [skipBlanks] at h
  rwa [h] at hd

theorem skipBlanks_skipBlanks : skipBlanks (skipBlanks bs) = skipBlanks bs := by
  cases hb : skipBlanks bs with
  | nil => rfl
  | cons b cs => exact skipBlanks_cons (not_blank_of_skipBlanks hb)

theorem readValue_skipBlanks : readValue fuel (skipBlanks bs) = readValue fuel bs := by
  cases fuel with
  | zero => rfl
  | succ fuel => simp only [readValue, skipBlanks_skipBlanks]

theorem readItems_skipBlanks : readItems fuel (skipBlanks bs) = readItems fuel bs := by
  cases fuel with
  | zero => rfl
  | succ fuel => simp only [readItems, readValue_skipBlanks]

theorem readMembers_skipBlanks : readMembers fuel (skipBlanks bs) = readMembers fuel bs := by
  cases fuel with
  | zero => rfl
  | succ fuel => simp only [readMembers, skipBlanks_skipBlanks]

theorem readValue_blanks {ws : Bytes} (h : Blanks ws) :
    readValue fuel (ws ++ bs) = readValue fuel bs := by
  rw [← readValue_skipBlanks, skipBlanks_blanks h, readValue_skipBlanks]

theorem readValue_array (h : ∀ r ∈ (skipBlanks bs).head?, r ≠ 0x5D) :
    readValue (fuel + 1) (0x5B :: bs) =
      (.array (readItems fuel bs).1 (readItems fuel bs).2.isSome, (readItems fuel bs).2) := by
  rw [← readItems_skipBlanks]
  simp only [readValue, skipBlanks_cons (show isBlank 0x5B = false by decide)]
  rw [if_neg (by decide), if_pos trivial]
  split
  · next hb => exact absurd rfl (h _ (by rw [hb]; rfl))
  · rfl

theorem readValue_object (h : ∀ r ∈ (skipBlanks bs).head?, r ≠ 0x7D) :
    readValue (fuel + 1) (0x7B :: bs) =
      (.object (readMembers fuel bs).1 (readMembers fuel bs).2.isSome,
        (readMembers fuel bs).2) := by
  rw [← readMembers_skipBlanks]
  simp only [readValue, skipBlanks_cons (show isBlank 0x7B = false by decide)]
  rw [if_neg (by decide), if_neg (by decide), if_pos trivial]
  split
  · next hb => exact absurd rfl (h _ (by rw [hb]; rfl))
  · rfl

theorem readValue_scalar {b : UInt8} (hb : isBlank b = false)
    (hq : b ≠ quoteMark ∧ b ≠ 0x5B ∧ b ≠ 0x7B) :
    readValue (fuel + 1) (b :: bs) = readScalar (b :: bs) := by
  simp only [readValue, skipBlanks_cons hb]
  rw [if_neg hq.1, if_neg hq.2.1, if_neg hq.2.2]

theorem readValue_string {x : Text} (h : Text.Body x.body) :
    readValue (fuel + 1) (quoteMark :: (x.body ++ [quoteMark]) ++ rest) =
      (.string x, some rest) := by
  simp [readValue, skipBlanks_cons (show isBlank quoteMark = false by decide), scan?_body h]

theorem readValue_emptyArray (h : skipBlanks bs = 0x5D :: rest) :
    readValue (fuel + 1) (0x5B :: bs) = (.array [] true, some rest) := by
  simp [readValue, skipBlanks_cons (show isBlank 0x5B = false by decide), h, quoteMark]

theorem readValue_emptyObject (h : skipBlanks bs = 0x7D :: rest) :
    readValue (fuel + 1) (0x7B :: bs) = (.object [] true, some rest) := by
  simp [readValue, skipBlanks_cons (show isBlank 0x7B = false by decide), h, quoteMark]

theorem readMembers_blanks {ws : Bytes} (h : Blanks ws) :
    readMembers fuel (ws ++ bs) = readMembers fuel bs := by
  rw [← readMembers_skipBlanks, skipBlanks_blanks h, readMembers_skipBlanks]

theorem readMembers_key {k : Text} {ws : Bytes} (hk : Text.Body k.body) (hws : Blanks ws) :
    readMembers (fuel + 1) (quoteMark :: (k.body ++ quoteMark :: (ws ++ 0x3A :: bs))) =
      match readValue fuel bs with
      | (t, none) => ([(k, t)], none)
      | (t, some rest) =>
        match skipBlanks rest with
        | 0x2C :: rest => ((k, t) :: (readMembers fuel rest).1, (readMembers fuel rest).2)
        | 0x7D :: rest => ([(k, t)], some rest)
        | _ => ([(k, t)], none) := by
  have hc : skipBlanks (ws ++ 0x3A :: bs) = 0x3A :: bs := by
    rw [skipBlanks_blanks hws, skipBlanks_cons (by decide)]
  simp only [readMembers, quoteMark, skipBlanks_cons (show isBlank 0x22 = false by decide)]
  rw [show (0x22 : UInt8) = quoteMark from rfl, scan?_body hk]
  dsimp only
  rw [hc]
  rfl

end Steps

section Sound

variable {fuel : Nat} {t : Tree} {ts : List Tree} {ms : List (Text × Tree)} {bs rest : Bytes}

theorem of_scan? {x : Text} (h : Text.scan? bs = some (x, rest)) :
    Text.Body x.body ∧ bs = x.body ++ quoteMark :: rest := by
  simp only [Text.scan?, Option.map_eq_some_iff] at h
  obtain ⟨⟨body, r⟩, h, heq⟩ := h
  cases heq
  exact Text.of_scanBody h

/-- What `readValue` has read, as a statement about the other readers with less fuel. -/
def ReadsValues (fuel : Nat) : Prop :=
  ∀ {bs t rest}, readValue fuel bs = (t, some rest) →
    ∃ u v, Blanks u ∧ Value t v ∧ bs = u ++ (v ++ rest)

def ReadsItems (fuel : Nat) : Prop :=
  ∀ {bs ts rest}, readItems fuel bs = (ts, some rest) →
    ∃ v, Elements ts v ∧ bs = v ++ 0x5D :: rest

def ReadsMembers (fuel : Nat) : Prop :=
  ∀ {bs ms rest}, readMembers fuel bs = (ms, some rest) →
    ∃ v, Members ms v ∧ bs = v ++ 0x7D :: rest

theorem of_readValue_string (h : readValue (fuel + 1) (quoteMark :: bs) = (t, some rest)) :
    ∃ v, Value t v ∧ quoteMark :: bs = v ++ rest := by
  simp only [readValue, skipBlanks_cons (show isBlank quoteMark = false by decide), if_true] at h
  split at h
  · next x r hs =>
    cases h
    obtain ⟨hx, rfl⟩ := of_scan? hs
    exact ⟨_, .string hx, by simp⟩
  · cases h

theorem ReadsItems.of_array (hi : ReadsItems fuel)
    (h : readValue (fuel + 1) (0x5B :: bs) = (t, some rest)) :
    ∃ v, Value t v ∧ 0x5B :: bs = v ++ rest := by
  by_cases hc : (skipBlanks bs).head? = some 0x5D
  · obtain ⟨r, hr⟩ := List.head?_eq_some_iff.mp hc
    rw [readValue_emptyArray hr] at h
    cases h
    obtain ⟨w, hw, rfl⟩ := skipBlanks_eq hr
    exact ⟨_, .emptyArray hw, by simp⟩
  · rw [readValue_array fun _ hr he => hc (he ▸ hr)] at h
    obtain ⟨rfl, hr⟩ := Prod.mk.inj h
    obtain ⟨v, hv, rfl⟩ := hi (Prod.ext rfl hr)
    rw [hr]
    exact ⟨_, .array hv, by simp⟩

theorem ReadsMembers.of_object (hm : ReadsMembers fuel)
    (h : readValue (fuel + 1) (0x7B :: bs) = (t, some rest)) :
    ∃ v, Value t v ∧ 0x7B :: bs = v ++ rest := by
  by_cases hc : (skipBlanks bs).head? = some 0x7D
  · obtain ⟨r, hr⟩ := List.head?_eq_some_iff.mp hc
    rw [readValue_emptyObject hr] at h
    cases h
    obtain ⟨w, hw, rfl⟩ := skipBlanks_eq hr
    exact ⟨_, .emptyObject hw, by simp⟩
  · rw [readValue_object fun _ hr he => hc (he ▸ hr)] at h
    obtain ⟨rfl, hr⟩ := Prod.mk.inj h
    obtain ⟨v, hv, rfl⟩ := hm (Prod.ext rfl hr)
    rw [hr]
    exact ⟨_, .object hv, by simp⟩

theorem ReadsItems.readsValues (hi : ReadsItems fuel) (hm : ReadsMembers fuel) :
    ReadsValues (fuel + 1) := by
  intro bs t rest h
  obtain ⟨u, hu, hbs⟩ := skipBlanks_split bs
  rw [← readValue_skipBlanks] at h
  cases hb : skipBlanks bs with
  | nil => rw [hb] at h; cases h
  | cons b cs =>
    rw [hb] at h hbs
    obtain ⟨v, hv, he⟩ : ∃ v, Value t v ∧ b :: cs = v ++ rest := by
      by_cases hq : b = quoteMark
      · subst hq; exact of_readValue_string h
      by_cases ha : b = 0x5B
      · subst ha; exact hi.of_array h
      by_cases ho : b = 0x7B
      · subst ho; exact hm.of_object h
      · rw [readValue_scalar (not_blank_of_skipBlanks hb) ⟨hq, ha, ho⟩] at h
        exact of_readScalar h
    exact ⟨u, v, hu, hv, hbs.trans (by rw [he])⟩

theorem ReadsValues.readsItems (hv : ReadsValues fuel) (hi : ReadsItems fuel) :
    ReadsItems (fuel + 1) := by
  intro bs ts rest h
  unfold readItems at h
  split at h
  · cases h
  · next t r hr =>
    obtain ⟨u, v, hu, ht, rfl⟩ := hv hr
    split at h
    · next r' hb =>
      obtain ⟨w, hw, rfl⟩ := skipBlanks_eq hb
      split at h
      next ts after hts =>
      obtain ⟨rfl, rfl⟩ := Prod.mk.inj h
      obtain ⟨vs, hvs, rfl⟩ := hi hts
      exact ⟨_, .cons (.padded hu ht hw) hvs, by simp⟩
    · next r' hb =>
      obtain ⟨w, hw, rfl⟩ := skipBlanks_eq hb
      cases h
      exact ⟨_, .last (.padded hu ht hw), by simp⟩
    · cases h

theorem ReadsValues.readsMembers (hv : ReadsValues fuel) (hm : ReadsMembers fuel) :
    ReadsMembers (fuel + 1) := by
  intro bs ms rest h
  unfold readMembers at h
  split at h
  · next r₀ hb₀ =>
    obtain ⟨u₀, hu₀, rfl⟩ := skipBlanks_eq hb₀
    split at h
    · cases h
    · next k r₁ hs =>
      obtain ⟨hk, rfl⟩ := of_scan? hs
      split at h
      · next r₂ hb₂ =>
        obtain ⟨u₁, hu₁, rfl⟩ := skipBlanks_eq hb₂
        split at h
        · cases h
        · next t r hr =>
          obtain ⟨u, v, hu, ht, rfl⟩ := hv hr
          have hmem : ∀ {w}, Blanks w → Member k t _ := fun hw =>
            .keyed hu₀ hk hu₁ (.padded hu ht hw)
          split at h
          · next r' hb =>
            obtain ⟨w, hw, rfl⟩ := skipBlanks_eq hb
            split at h
            next ms after hms =>
            obtain ⟨rfl, rfl⟩ := Prod.mk.inj h
            obtain ⟨vs, hvs, rfl⟩ := hm hms
            exact ⟨_, .cons (hmem hw) hvs, by simp [quoteMark]⟩
          · next r' hb =>
            obtain ⟨w, hw, rfl⟩ := skipBlanks_eq hb
            cases h
            exact ⟨_, .last (hmem hw), by simp [quoteMark]⟩
          · cases h
      · cases h
  · cases h

theorem reads (fuel : Nat) : ReadsValues fuel ∧ ReadsItems fuel ∧ ReadsMembers fuel := by
  induction fuel with
  | zero => simp [ReadsValues, ReadsItems, ReadsMembers, readValue, readItems, readMembers]
  | succ fuel ih =>
    obtain ⟨hv, hi, hm⟩ := ih
    exact ⟨hi.readsValues hm, hv.readsItems hi, hv.readsMembers hm⟩

end Sound

section Complete

variable {t : Tree} {bs rest : Bytes}

theorem not_blank_of_numeral {b : UInt8} (h : isDigit b = true ∨ b = 0x2D) :
    isBlank b = false ∧ (b ≠ quoteMark ∧ b ≠ 0x5B ∧ b ≠ 0x7B) ∧ b ≠ 0x5D ∧ b ≠ 0x7D := by
  rcases h with h | rfl
  · refine ⟨?_, ⟨?_, ?_, ?_⟩, ?_, ?_⟩
    · by_contra hb
      simp only [isBlank, Bool.not_eq_false, Bool.or_eq_true, beq_iff_eq] at hb
      rcases hb with ((rfl | rfl) | rfl) | rfl <;> exact absurd h (by decide)
    all_goals rintro rfl; exact absurd h (by decide)
  · decide

/-- What a value starts with: no blank, and nothing that could close a container. -/
theorem Value.head (h : Value t bs) :
    ∃ b cs, bs = b :: cs ∧ isBlank b = false ∧ b ≠ 0x5D ∧ b ≠ 0x7D := by
  cases h with
  | literal h =>
    simp only [literals, List.mem_cons, Prod.mk.injEq, List.not_mem_nil, or_false] at h
    rcases h with ⟨rfl, -⟩ | ⟨rfl, -⟩ | ⟨rfl, -⟩ <;> exact ⟨_, _, rfl, by decide⟩
  | number h =>
    obtain ⟨b, cs, rfl, hb⟩ := h.head
    obtain ⟨h₁, -, h₂⟩ := not_blank_of_numeral hb
    exact ⟨b, cs, rfl, h₁, h₂⟩
  | string | emptyArray | array | emptyObject | object => exact ⟨_, _, rfl, by decide⟩

theorem Elements.head_ne {ts : List Tree} (h : Elements ts bs) :
    ∀ r ∈ (skipBlanks (bs ++ rest)).head?, r ≠ 0x5D := by
  have he : ∀ {t cs rest}, Element t cs → ∀ r ∈ (skipBlanks (cs ++ rest)).head?, r ≠ 0x5D := by
    rintro t _ rest ⟨hu, hv, hw⟩
    obtain ⟨b, cs, rfl, hb, hne, -⟩ := hv.head
    simp only [List.append_assoc, List.cons_append]
    rw [skipBlanks_blanks hu, skipBlanks_cons hb]
    rintro _ ⟨⟩; exact hne
  cases h with
  | last h => exact he h
  | cons h => rw [List.append_assoc]; exact he h

theorem Members.head_ne {ms : List (Text × Tree)} (h : Members ms bs) :
    ∀ r ∈ (skipBlanks (bs ++ rest)).head?, r ≠ 0x7D := by
  have he : ∀ {k t cs rest}, Member k t cs → ∀ r ∈ (skipBlanks (cs ++ rest)).head?, r ≠ 0x7D := by
    rintro k t _ rest ⟨hu, -, -, -⟩
    simp only [List.append_assoc, List.cons_append]
    rw [skipBlanks_blanks hu, skipBlanks_cons (by decide)]
    rintro _ ⟨⟩; decide
  cases h with
  | last h => exact he h
  | cons h => rw [List.append_assoc]; exact he h

mutual

/-- A value is read to its end with twice its length of fuel. -/
theorem Value.read {t : Tree} {bs : Bytes} (h : Value t bs) (fuel : Nat) (rest : Bytes)
    (hr : Numeral.Delimits rest) (hf : 2 * bs.length ≤ fuel) :
    readValue fuel (bs ++ rest) = (t, some rest) := by
  match fuel, h with
  | 0, h =>
    obtain ⟨b, cs, rfl, -⟩ := h.head
    simp at hf
  | fuel + 1, .literal h =>
    have hs := readScalar_literal h rest
    simp only [literals, List.mem_cons, Prod.mk.injEq, List.not_mem_nil, or_false] at h
    rcases h with ⟨rfl, -⟩ | ⟨rfl, -⟩ | ⟨rfl, -⟩ <;>
    · rw [← hs]; exact readValue_scalar (by decide) (by decide)
  | fuel + 1, .number h =>
    have hs := readScalar_number h hr
    obtain ⟨b, cs, rfl, hb⟩ := h.head
    obtain ⟨hb₁, hb₂⟩ := not_blank_of_numeral hb
    rw [← hs]; exact readValue_scalar hb₁ hb₂.1
  | fuel + 1, .string h => exact readValue_string h
  | fuel + 1, .emptyArray h =>
    refine readValue_emptyArray ?_
    rw [List.append_eq, List.append_assoc, skipBlanks_blanks h]
    exact skipBlanks_cons (by decide)
  | fuel + 1, .array h =>
    have hi := h.read fuel rest (by simp at hf; omega)
    simp only [List.cons_append, List.append_assoc, List.nil_append]
    rw [readValue_array h.head_ne, hi]
    rfl
  | fuel + 1, .emptyObject h =>
    refine readValue_emptyObject ?_
    rw [List.append_eq, List.append_assoc, skipBlanks_blanks h]
    exact skipBlanks_cons (by decide)
  | fuel + 1, .object h =>
    have hi := h.read fuel rest (by simp at hf; omega)
    simp only [List.cons_append, List.append_assoc, List.nil_append]
    rw [readValue_object h.head_ne, hi]
    rfl

theorem Element.read {t : Tree} {bs : Bytes} (h : Element t bs) (fuel : Nat) (rest : Bytes)
    (hr : Numeral.Delimits rest) (hf : 2 * bs.length ≤ fuel) :
    ∃ ws, Blanks ws ∧ readValue fuel (bs ++ rest) = (t, some (ws ++ rest)) := by
  match h with
  | .padded (w := w) hu hv hw =>
    have hv := hv.read fuel _ (delimits_append hw hr) (by simp at hf; omega)
    refine ⟨w, hw, ?_⟩
    simp only [List.append_assoc]
    rw [readValue_blanks hu, hv]

theorem Elements.read {ts : List Tree} {bs : Bytes} (h : Elements ts bs) (fuel : Nat)
    (rest : Bytes) (hf : 2 * bs.length < fuel) :
    readItems fuel (bs ++ 0x5D :: rest) = (ts, some rest) := by
  match fuel, h with
  | 0, h => cases hf
  | fuel + 1, .last h =>
    obtain ⟨ws, hw, hv⟩ := h.read fuel (0x5D :: rest) (delimits_cons (by decide))
      (by omega)
    simp only [readItems, hv, skipBlanks_blanks hw,
      skipBlanks_cons (show isBlank 0x5D = false by decide)]
  | fuel + 1, @Elements.cons _ _ bs cs h ht =>
    simp only [List.length_append, List.length_cons] at hf
    obtain ⟨ws, hw, hv⟩ := h.read fuel (0x2C :: (cs ++ 0x5D :: rest))
      (delimits_cons (by decide)) (by omega)
    have hi := ht.read fuel rest (by omega)
    simp only [readItems, List.append_assoc, List.cons_append, hv, skipBlanks_blanks hw,
      skipBlanks_cons (show isBlank 0x2C = false by decide), hi]

theorem Members.read {ms : List (Text × Tree)} {bs : Bytes} (h : Members ms bs) (fuel : Nat)
    (rest : Bytes) (hf : 2 * bs.length < fuel) :
    readMembers fuel (bs ++ 0x7D :: rest) = (ms, some rest) := by
  match fuel, h with
  | 0, h => cases hf
  | fuel + 1, .last (@Member.keyed _ _ bs _ _ hu hk hv he) =>
    simp only [List.length_append, List.length_cons] at hf
    obtain ⟨ws, hw, he⟩ := he.read fuel (0x7D :: rest) (delimits_cons (by decide))
      (by omega)
    simp only [List.append_assoc, List.cons_append, readMembers_blanks hu]
    simp [readMembers_key hk hv, he, skipBlanks_blanks hw,
      skipBlanks_cons (show isBlank 0x7D = false by decide)]
  | fuel + 1, @Members.cons _ _ _ _ cs (@Member.keyed _ _ bs _ _ hu hk hv he) ht =>
    simp only [List.length_append, List.length_cons] at hf
    obtain ⟨ws, hw, he⟩ := he.read fuel (0x2C :: (cs ++ 0x7D :: rest))
      (delimits_cons (by decide)) (by omega)
    have hi := ht.read fuel rest (by omega)
    simp only [List.append_assoc, List.cons_append, readMembers_blanks hu]
    simp [readMembers_key hk hv, he, skipBlanks_blanks hw,
      skipBlanks_cons (show isBlank 0x2C = false by decide), hi]

end

end Complete

section Texts

variable {t : Tree} {k : Text} {bs : Bytes}

/-- Reading a text up to trailing blanks is finding its tree in the grammar. -/
theorem read_iff_element : (∃ ws, Blanks ws ∧ read bs = (t, some ws)) ↔ Element t bs := by
  constructor
  · rintro ⟨ws, hws, h⟩
    obtain ⟨u, v, hu, hv, rfl⟩ := (reads _).1 h
    exact .padded hu hv hws
  · intro h
    obtain ⟨ws, hws, hr⟩ := h.read (2 * bs.length + 2) [] (by rintro _ ⟨⟩)
      (by omega)
    exact ⟨ws, hws, by simpa [read] using hr⟩

theorem Element.unique {t' : Tree} (h : Element t bs) (h' : Element t' bs) : t = t' := by
  obtain ⟨ws, -, hr⟩ := read_iff_element.mpr h
  obtain ⟨ws', -, hr'⟩ := read_iff_element.mpr h'
  rw [hr] at hr'
  exact congrArg Prod.fst hr'

theorem Elements.value_of_mem {ts : List Tree} {bs : Bytes} (h : Elements ts bs) (ht : t ∈ ts) :
    ∃ v, Value t v := by
  match h with
  | .last (.padded _ hv _) => obtain rfl := List.mem_singleton.mp ht; exact ⟨_, hv⟩
  | .cons (.padded _ hv _) hts =>
    rcases List.mem_cons.mp ht with rfl | ht
    · exact ⟨_, hv⟩
    · exact hts.value_of_mem ht

theorem Members.value_of_mem {ms : List (Text × Tree)} {bs : Bytes} (h : Members ms bs)
    (hm : (k, t) ∈ ms) : Text.Body k.body ∧ ∃ v, Value t v := by
  match h with
  | .last (.keyed _ hk _ (.padded _ hv _)) => cases List.mem_singleton.mp hm; exact ⟨hk, _, hv⟩
  | .cons (.keyed _ hk _ (.padded _ hv _)) hms =>
    rcases List.mem_cons.mp hm with hm | hm
    · cases hm; exact ⟨hk, _, hv⟩
    · exact hms.value_of_mem hm

mutual

theorem Value.intact {t : Tree} {bs : Bytes} (h : Value t bs) : t.intact = true := by
  match h with
  | .literal h =>
    simp only [literals, List.mem_cons, Prod.mk.injEq, List.not_mem_nil, or_false] at h
    rcases h with ⟨-, rfl⟩ | ⟨-, rfl⟩ | ⟨-, rfl⟩ <;> rfl
  | .number _ | .string _ | .emptyArray _ | .emptyObject _ => rfl
  | .array h => simp [Tree.intact, h.intact]
  | .object h => simp [Tree.intact, h.intact]

theorem Elements.intact {ts : List Tree} {bs : Bytes} (h : Elements ts bs) :
    Tree.allIntact ts = true := by
  match h with
  | .last (.padded _ hv _) => simp [Tree.allIntact, hv.intact]
  | .cons (.padded _ hv _) h => simp [Tree.allIntact, hv.intact, h.intact]

theorem Members.intact {ms : List (Text × Tree)} {bs : Bytes} (h : Members ms bs) :
    Tree.membersIntact ms = true := by
  match h with
  | .last (.keyed _ _ _ (.padded _ hv _)) => simp [Tree.membersIntact, hv.intact]
  | .cons (.keyed _ _ _ (.padded _ hv _)) h => simp [Tree.membersIntact, hv.intact, h.intact]

end

end Texts

end DelayedQueue.Json
