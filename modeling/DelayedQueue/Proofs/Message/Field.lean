import Mathlib.Algebra.Group.Int.Defs
import Mathlib.Data.List.Forall2
import DelayedQueue.Message.Row
import DelayedQueue.Proofs.Json.Grammar

/-! # The fields of a row

Which values of JSON give which field of a message. What counts as an integer is a parameter:
rows take every integer literal but minus zero, which is read as a fraction.
-/

namespace DelayedQueue.Row
open Json (Tree Text Numeral)

section Values

variable (Lit : Numeral → Int → Prop)

def IsString (t : Tree) (s : String) : Prop := ∃ x, t = .string x ∧ Text.Denotes x.body s.toList

def IsInteger (t : Tree) (k : Int) : Prop := ∃ n, t = .number n ∧ Lit n k

def IsByte (t : Tree) (b : UInt8) : Prop := IsInteger Lit t b.toNat

/-- An empty object stands for no bytes. -/
def IsBytes (t : Tree) (bs : Bytes) : Prop :=
  (∃ items, t = .array items true ∧ List.Forall₂ (IsByte Lit) items bs) ∨
    (t = .object [] true ∧ bs = [])

/-- The milliseconds of a time in range. -/
def IsTime (t : Tree) (u : Time) : Prop := ∃ k, IsInteger Lit t k ∧ u.IsMillis k

def IsOptionalTime (t : Tree) (o : Option Time) : Prop :=
  (t = .null ∧ o = none) ∨ ∃ u, o = some u ∧ IsTime Lit t u

def IsCount (t : Tree) (n : UInt64) : Prop := IsInteger Lit t n.toNat

/-- The value gives the field of a message. -/
def Gives (m : Message) (t : Tree) : Field → Prop
  | .id => IsString t m.id
  | .payload => IsBytes Lit t m.payload
  | .createAt => IsTime Lit t m.createAt
  | .deliverAt => IsOptionalTime Lit t m.deliverAt
  | .redeliverAt => IsOptionalTime Lit t m.redeliverAt
  | .deliveries => IsCount Lit t m.deliveries

/-- The field of a message may be left out. -/
def Omits (m : Message) : Field → Prop
  | .id | .payload | .createAt => False
  | .deliverAt => m.deliverAt = none
  | .redeliverAt => m.redeliverAt = none
  | .deliveries => m.deliveries = 0

def Holds (m : Message) (f : Field) : Option Tree → Prop
  | some t => Gives Lit m t f
  | none => Omits m f

end Values

section Reading

variable {t : Tree} {k : Int}

theorem integer?_of_fraction {n : Numeral} (h : n.read? = n.fraction?.map .fraction) :
    integer? (.number n) = none := by
  cases hf : n.fraction? <;> simp [integer?, h, hf]

theorem integer?_number {n : Numeral} :
    integer? (.number n) = some k ↔ n.Integer k ∧ -(2 ^ 63) ≤ k ∧ k < 2 ^ 64 := by
  unfold Numeral.Integer Numeral.Literal
  by_cases hp : n.places = [] ∧ n.exponent = none
  · obtain ⟨hp, he⟩ := hp
    cases hn : n.negative with
    | false =>
      by_cases hs : Json.digitsValue n.whole < UInt64.size
      · have hr : n.read? = some (.unsigned (Json.digitsValue n.whole)) := by
          simp [Numeral.read?, hp, he, hn, hs]
        simp [integer?, hr, hp, he, UInt64.size] at hs ⊢
        omega
      · have hr : n.read? = n.fraction?.map .fraction := by simp [Numeral.read?, hp, he, hn, hs]
        simp [integer?_of_fraction hr, UInt64.size] at hs ⊢
        omega
    | true =>
      by_cases hs : Json.digitsValue n.whole = 0 ∨ UInt64.size / 2 < Json.digitsValue n.whole
      · have hr : n.read? = n.fraction?.map .fraction := by simp [Numeral.read?, hp, he, hn, hs]
        simp [integer?_of_fraction hr, UInt64.size] at hs ⊢
        omega
      · have hr : n.read? = some (.negative (-Json.digitsValue n.whole)) := by
          simp [Numeral.read?, hp, he, hn, hs]
        simp [integer?, hr, hp, he, UInt64.size] at hs ⊢
        omega
  · have hr : n.read? = n.fraction?.map .fraction := by
      unfold Numeral.read?
      rw [if_neg (by simpa using hp)]
    rw [integer?_of_fraction hr]
    simp only [reduceCtorEq, false_iff]
    rintro ⟨⟨⟨h₁, h₂, -⟩, -⟩, -⟩
    exact hp ⟨h₁, h₂⟩

theorem integer?_eq_some_iff :
    integer? t = some k ↔ IsInteger Numeral.Integer t k ∧ -(2 ^ 63) ≤ k ∧ k < 2 ^ 64 := by
  cases t with
  | number n => simp [IsInteger, integer?_number]
  | _ => simp [integer?, IsInteger]

theorem wrongType_ne_ok {α : Type} {e : Expected} {a : α} : wrongType t e ≠ .ok a := by
  unfold wrongType
  split <;> simp

theorem readString_eq_ok_iff {s : String} {v : Bytes} (hv : Json.Value t v) :
    readString t = .ok s ↔ IsString t s := by
  cases t with
  | string x =>
    cases hv with
    | literal h => simp [Json.literals] at h
    | string hb =>
      simp only [readString, IsString, Tree.string.injEq, exists_eq_left']
      rw [← Json.Text.value?_eq_some_iff hb]
      split <;> simp_all
  | _ => simp [readString, IsString, wrongType_ne_ok]

theorem readByte_eq_ok_iff {b : UInt8} : readByte t = .ok b ↔ IsByte Numeral.Integer t b := by
  have hb := b.toNat_lt
  unfold readByte IsByte
  constructor
  · intro h
    split at h
    · next n hn =>
      split at h
      · next hr =>
        obtain rfl : n.toNat.toUInt8 = b := by simpa using h
        have : (n.toNat.toUInt8.toNat : Int) = n := by simp; omega
        rw [this]
        exact (integer?_eq_some_iff.mp hn).1
      · cases h
    · exact absurd h wrongType_ne_ok
  · intro h
    rw [integer?_eq_some_iff.mpr ⟨h, by omega, by omega⟩]
    simp
    omega

theorem readBytes_eq_ok_iff {ts : List Tree} {bs : Bytes} :
    readBytes ts = .ok bs ↔ List.Forall₂ (IsByte Numeral.Integer) ts bs := by
  induction ts generalizing bs with
  | nil => simp [readBytes, eq_comm]
  | cons t ts ih =>
    cases bs with
    | nil =>
      simp only [List.forall₂_nil_right_iff, reduceCtorEq, iff_false]
      intro h
      unfold readBytes at h
      split at h
      · cases h
      · split at h <;> cases h
    | cons b bs =>
      rw [List.forall₂_cons, ← readByte_eq_ok_iff, ← ih, readBytes]
      split
      · simp [*]
      · split <;> simp [*]

theorem readPayload_eq_ok_iff {bs : Bytes} :
    readPayload t = .ok bs ↔ IsBytes Numeral.Integer t bs := by
  unfold IsBytes
  cases t with
  | array items closed =>
    simp only [readPayload, ← readBytes_eq_ok_iff, Tree.array.injEq, reduceCtorEq, false_and,
      or_false]
    cases closed <;> split <;> simp_all
  | object ms closed =>
    simp only [reduceCtorEq, false_and, exists_false, false_or, Tree.object.injEq]
    rcases ms with _ | ⟨⟨k, t⟩, ms⟩
    · cases closed <;> simp [readPayload, eq_comm]
    · simp only [readPayload]
      split <;> simp
  | _ => simp [readPayload, wrongType_ne_ok]

theorem readTime_eq_ok_iff {u : Time} : readTime t = .ok u ↔ IsTime Numeral.Integer t u := by
  unfold readTime IsTime
  constructor
  · intro h
    split at h
    · next k hk =>
      split at h
      · next u' hu =>
        cases h
        exact ⟨k, (integer?_eq_some_iff.mp hk).1, Time.ofMillis?_eq_some_iff.mp hu⟩
      · cases h
    · exact absurd h wrongType_ne_ok
  · rintro ⟨k, hk, hu⟩
    have h₁ := u.earliest_le
    have h₂ := u.le_latest
    rw [hu.nanos] at h₁ h₂
    simp only [earliestNanos, latestNanos] at h₁ h₂
    rw [integer?_eq_some_iff.mpr ⟨hk, by omega, by omega⟩]
    simp [Time.ofMillis?_eq_some_iff.mpr hu]

theorem not_isInteger_null {Lit : Numeral → Int → Prop} : ¬ IsInteger Lit .null k := by
  rintro ⟨n, h, -⟩; cases h

theorem readOptionalTime_eq_ok_iff {o : Option Time} :
    readOptionalTime t = .ok o ↔ IsOptionalTime Numeral.Integer t o := by
  unfold readOptionalTime IsOptionalTime
  split
  · simp [IsTime, not_isInteger_null, eq_comm]
  · next h =>
    have hne : ¬ t = .null := h
    simp only [hne, false_and, false_or, ← readTime_eq_ok_iff]
    cases readTime t <;> simp [Except.map, eq_comm]

theorem readCount_eq_ok_iff {n : UInt64} :
    readCount t = .ok n ↔ IsCount Numeral.Integer t n := by
  have hb := n.toNat_lt
  unfold readCount IsCount
  constructor
  · intro h
    split at h
    · next k hk =>
      split at h
      · next hr =>
        obtain ⟨hi, -, hlt⟩ := integer?_eq_some_iff.mp hk
        obtain rfl : k.toNat.toUInt64 = n := by simpa using h
        have : (k.toNat.toUInt64.toNat : Int) = k := by simp; omega
        rw [this]
        exact hi
      · cases h
    · exact absurd h wrongType_ne_ok
  · intro h
    rw [integer?_eq_some_iff.mpr ⟨h, by omega, by omega⟩]
    simp

end Reading

end DelayedQueue.Row
