import Mathlib.Data.List.Infix
import DelayedQueue.Proofs.Json.Grammar

/-! # How deep a text is open

A scan that looks for quotes, escapes and brackets alone. It comes back from any value to the depth
at which it began, and is deeper all through a value in braces, so no such value begins with
another. It also notices a byte that no value has outside its strings.
-/

namespace DelayedQueue.Json

/-- Where a scan is, with the number of brackets that are open. -/
inductive Scan where
  | outside (depth : Nat)
  | inString (depth : Nat)
  | escaped (depth : Nat)
  /-- Past an `i` that is in no string. -/
  | lost

namespace Scan

variable {s : Scan} {d e : Nat} {b : UInt8} {bs cs p : Bytes}

def step : Scan → UInt8 → Scan
  | outside d, b =>
    if b = quoteMark then inString d
    else if b = 0x5B ∨ b = 0x7B then outside (d + 1)
    else if b = 0x5D ∨ b = 0x7D then outside (d - 1)
    else if b = 0x69 then lost
    else outside d
  | inString d, b =>
    if b = quoteMark then outside d else if b = backslash then escaped d else inString d
  | escaped d, _ => inString d
  | lost, _ => lost

def run (s : Scan) (bs : Bytes) : Scan := bs.foldl step s

/-- Not lost, and `d` brackets are open at least. -/
def Deep (d : Nat) : Scan → Prop
  | outside e | inString e | escaped e => d ≤ e
  | lost => False

/-- `Deep` before the first byte and after each. -/
def Stays (d : Nat) : Scan → Bytes → Prop
  | s, [] => s.Deep d
  | s, b :: bs => s.Deep d ∧ Stays d (s.step b) bs

@[simp] theorem run_cons : s.run (b :: bs) = (s.step b).run bs := rfl

theorem run_append : s.run (bs ++ cs) = (s.run bs).run cs := List.foldl_append

@[simp] theorem run_lost : lost.run bs = lost := by
  induction bs with
  | nil => rfl
  | cons b bs ih => exact ih

theorem Deep.mono (h : s.Deep e) (hd : d ≤ e) : s.Deep d := by
  cases s with
  | lost => exact h
  | _ => exact Nat.le_trans hd h

theorem Deep.ne_outside (h : s.Deep 1) : s ≠ outside 0 := by
  rintro rfl
  exact absurd h (by simp [Deep])

theorem Stays.mono (h : s.Stays e bs) (hd : d ≤ e) : s.Stays d bs := by
  induction bs generalizing s with
  | nil => exact Deep.mono h hd
  | cons b bs ih => exact ⟨h.1.mono hd, ih h.2⟩

theorem Stays.deep (h : s.Stays d bs) : (s.run bs).Deep d := by
  induction bs generalizing s with
  | nil => exact h
  | cons b bs ih => exact ih h.2

theorem stays_append : s.Stays d (bs ++ cs) ↔ s.Stays d bs ∧ (s.run bs).Stays d cs := by
  induction bs generalizing s with
  | nil =>
    refine ⟨fun h => ⟨?_, h⟩, And.right⟩
    cases cs with
    | nil => exact h
    | cons => exact h.1
  | cons b bs ih => exact (and_congr_right' ih).trans and_assoc.symm

theorem Stays.of_isPrefix (h : s.Stays d bs) (hp : p <+: bs) : (s.run p).Deep d := by
  obtain ⟨q, rfl⟩ := hp
  exact (stays_append.mp h).1.deep

end Scan

open Scan (outside inString escaped)

section Balance

variable {b : UInt8} {bs cs ws : Bytes}

/-- A text that a scan leaves as deep as it was before, and that closes nothing opened before. -/
structure Balanced (bs : Bytes) : Prop where
  settles : ∀ d, (outside d).run bs = outside d
  stays : ∀ d, (outside d).Stays d bs

/-- A byte that a scan passes over. -/
def Plain (b : UInt8) : Prop :=
  b ≠ quoteMark ∧ ¬ (b = 0x5B ∨ b = 0x7B) ∧ ¬ (b = 0x5D ∨ b = 0x7D) ∧ b ≠ 0x69

theorem balanced_nil : Balanced [] := ⟨fun _ => rfl, Nat.le_refl⟩

theorem Balanced.append (h : Balanced bs) (h' : Balanced cs) : Balanced (bs ++ cs) where
  settles d := by rw [Scan.run_append, h.settles, h'.settles]
  stays d := Scan.stays_append.mpr ⟨h.stays d, (h.settles d).symm ▸ h'.stays d⟩

theorem step_plain (h : Plain b) (d : Nat) : (outside d).step b = outside d := by
  simp only [Scan.step, if_neg h.1, if_neg h.2.1, if_neg h.2.2.1, if_neg h.2.2.2]

theorem Balanced.cons (hb : Plain b) (h : Balanced bs) : Balanced (b :: bs) where
  settles d := by rw [Scan.run_cons, step_plain hb, h.settles]
  stays d := ⟨Nat.le_refl d, (step_plain hb d).symm ▸ h.stays d⟩

theorem balanced_of_plain (h : ∀ b ∈ bs, Plain b) : Balanced bs := by
  induction bs with
  | nil => exact balanced_nil
  | cons b bs ih =>
    obtain ⟨hb, hbs⟩ := List.forall_mem_cons.mp h
    exact (ih hbs).cons hb

theorem Balanced.bracketed {o c : UInt8} (h : Balanced bs) (ho : o = 0x5B ∨ o = 0x7B)
    (hc : c = 0x5D ∨ c = 0x7D) : Balanced (o :: (bs ++ [c])) := by
  have hopen (d : Nat) : (outside d).step o = outside (d + 1) := by
    rcases ho with rfl | rfl <;> rfl
  have hclose (d : Nat) : (outside (d + 1)).step c = outside d := by
    rcases hc with rfl | rfl <;> rfl
  refine ⟨fun d => ?_, fun d => ⟨Nat.le_refl d, ?_⟩⟩
  · rw [Scan.run_cons, hopen, Scan.run_append, h.settles]
    exact hclose d
  · rw [hopen, Scan.stays_append, h.settles]
    refine ⟨(h.stays (d + 1)).mono (Nat.le_succ d), Nat.le_succ d, ?_⟩
    rw [hclose]
    exact Nat.le_refl d

theorem plain_of_isBlank (h : isBlank b = true) : Plain b := by
  simp only [isBlank, Bool.or_eq_true, beq_iff_eq] at h
  rcases h with ((rfl | rfl) | rfl) | rfl <;> simp [Plain, quoteMark]

theorem plain_of_isDigit (h : isDigit b = true) : Plain b := by
  refine ⟨?_, ?_, ?_, ?_⟩
  · rintro rfl; exact absurd h (by decide)
  · rintro (rfl | rfl) <;> exact absurd h (by decide)
  · rintro (rfl | rfl) <;> exact absurd h (by decide)
  · rintro rfl; exact absurd h (by decide)

theorem balanced_blanks (h : Blanks ws) : Balanced ws :=
  balanced_of_plain fun b hb => plain_of_isBlank (h b hb)

theorem balanced_digits (h : AllDigits bs) : Balanced bs :=
  balanced_of_plain fun b hb => plain_of_isDigit (h b hb)

end Balance

section Scalars

variable {t : Tree} {n : Numeral} {bs body word : Bytes}

theorem balanced_literal (h : (word, t) ∈ literals) : Balanced word := by
  simp only [literals, List.mem_cons, Prod.mk.injEq, List.not_mem_nil, or_false] at h
  rcases h with ⟨rfl, -⟩ | ⟨rfl, -⟩ | ⟨rfl, -⟩ <;>
    exact balanced_of_plain (by simp [Plain, quoteMark])

theorem Numeral.Spells.balanced (h : n.Spells bs) : Balanced bs := by
  obtain ⟨negative, whole, places, exponent⟩ := n
  obtain ⟨hw, ps, es, hps, hes, rfl⟩ := h
  have hsign : Balanced (sign negative) := by
    cases negative <;> exact balanced_of_plain (by simp [sign, Plain, quoteMark])
  have hplaces : Balanced ps := by
    cases hps with
    | none => exact balanced_nil
    | some _ hd => exact (balanced_digits hd).cons (by simp [Plain, quoteMark])
  have hletter {e : UInt8} (he : e = 0x65 ∨ e = 0x45) : Plain e := by
    rcases he with rfl | rfl <;> simp [Plain, quoteMark]
  have hpower : Balanced es := by
    cases hes with
    | none => exact balanced_nil
    | bare he _ hd => exact (balanced_digits hd).cons (hletter he)
    | plus he _ hd | minus he _ hd =>
      exact ((balanced_digits hd).cons (by simp [Plain, quoteMark])).cons (hletter he)
  exact ((hsign.append (balanced_digits hw.allDigits)).append hplaces).append hpower

theorem Text.Body.scan (h : Text.Body body) (d : Nat) :
    (inString d).run body = inString d ∧ (inString d).Stays d body := by
  have hd : d ≤ d := Nat.le_refl d
  have hplain {b : UInt8} (hq : b ≠ quoteMark) (hb : b ≠ backslash) :
      (inString d).step b = inString d := by
    simp only [Scan.step, if_neg hq, if_neg hb]
  have hescape : (inString d).step backslash = escaped d := rfl
  induction h with
  | nil => exact ⟨rfl, hd⟩
  | plain _ hq hb _ ih =>
    rw [Scan.run_cons, Scan.Stays, hplain hq hb]
    exact ⟨ih.1, hd, ih.2⟩
  | short _ _ ih =>
    simp only [Scan.run_cons, Scan.Stays, hescape]
    exact ⟨ih.1, hd, hd, ih.2⟩
  | unit hu _ ih =>
    obtain ⟨_, _, _, _, hp, hq, hr, hs, -⟩ := hu
    have hstep {x : UInt8} {k : Nat} (hx : HexDigit x k) : (inString d).step x = inString d := by
      have hv := hexDigit?_eq_some_iff.mpr hx
      refine hplain ?_ ?_ <;>
      · rintro rfl
        exact absurd hv (by simp [hexDigit?, quoteMark, backslash])
    have hletter : (escaped d).step 0x75 = inString d := rfl
    simp only [Scan.run_cons, Scan.Stays, hescape, hletter, hstep hp, hstep hq, hstep hr, hstep hs]
    exact ⟨ih.1, hd, hd, hd, hd, hd, hd, ih.2⟩

theorem Text.Body.balanced (h : Text.Body body) :
    Balanced (quoteMark :: (body ++ [quoteMark])) := by
  have hopen (d : Nat) : (outside d).step quoteMark = inString d := rfl
  have hclose (d : Nat) : (inString d).step quoteMark = outside d := rfl
  refine ⟨fun d => ?_, fun d => ⟨Nat.le_refl d, ?_⟩⟩
  · rw [Scan.run_cons, hopen, Scan.run_append, (h.scan d).1]
    exact hclose d
  · rw [hopen, Scan.stays_append, (h.scan d).1]
    exact ⟨(h.scan d).2, Nat.le_refl d, Nat.le_refl d⟩

end Scalars

section Values

mutual

theorem Value.balanced {t : Tree} {bs : Bytes} (h : Value t bs) : Balanced bs := by
  match h with
  | .literal h => exact balanced_literal h
  | .number h => exact h.balanced
  | .string h => exact h.balanced
  | .emptyArray h | .emptyObject h => exact (balanced_blanks h).bracketed (by simp) (by simp)
  | .array h | .object h => exact h.balanced.bracketed (by simp) (by simp)

theorem Element.balanced {t : Tree} {bs : Bytes} (h : Element t bs) : Balanced bs := by
  match h with
  | .padded hu hv hw => exact (balanced_blanks hu).append (hv.balanced.append (balanced_blanks hw))

theorem Elements.balanced {ts : List Tree} {bs : Bytes} (h : Elements ts bs) : Balanced bs := by
  match h with
  | .last h => exact h.balanced
  | .cons h hs => exact h.balanced.append (hs.balanced.cons (by simp [Plain, quoteMark]))

theorem Member.balanced {k : Text} {t : Tree} {bs : Bytes} (h : Member k t bs) :
    Balanced bs := by
  match h with
  | @Member.keyed u v bs k _ hu hk hv he =>
    have hvalue : Balanced (v ++ 0x3A :: bs) :=
      (balanced_blanks hv).append (he.balanced.cons (by simp [Plain, quoteMark]))
    have hkeyed := (balanced_blanks hu).append (hk.balanced.append hvalue)
    simpa using hkeyed

theorem Members.balanced {ms : List (Text × Tree)} {bs : Bytes} (h : Members ms bs) :
    Balanced bs := by
  match h with
  | .last h => exact h.balanced
  | .cons h hs => exact h.balanced.append (hs.balanced.cons (by simp [Plain, quoteMark]))

end

variable {t : Tree} {v v' p : Bytes}

/-- A text in braces that match. -/
def Braced (v : Bytes) : Prop := ∃ bs, Balanced bs ∧ v = 0x7B :: (bs ++ [0x7D])

theorem Braced.settles (h : Braced v) : (outside 0).run v = outside 0 := by
  obtain ⟨bs, hbs, rfl⟩ := h
  exact (hbs.bracketed (.inr rfl) (.inr rfl)).settles 0

theorem Value.braced (h : Value t v) (hv : v.head? = some 0x7B) : Braced v := by
  cases h with
  | emptyObject h => exact ⟨_, balanced_blanks h, rfl⟩
  | object h => exact ⟨_, h.balanced, rfl⟩
  | literal h =>
    simp only [literals, List.mem_cons, Prod.mk.injEq, List.not_mem_nil, or_false] at h
    rcases h with ⟨rfl, -⟩ | ⟨rfl, -⟩ | ⟨rfl, -⟩ <;> cases hv
  | number h =>
    obtain ⟨b, cs, rfl, hb⟩ := h.head
    obtain rfl : b = 0x7B := Option.some.inj hv
    exact absurd rfl (not_blank_of_numeral hb).2.1.2.2
  | string | emptyArray | array => cases hv

/-- A brace stays open until the last byte. -/
theorem Braced.deep_of_isPrefix (h : Braced v) (hp : p <+: v) (hnil : p ≠ []) (hne : p ≠ v) :
    ((outside 0).run p).Deep 1 := by
  obtain ⟨bs, hbs, rfl⟩ := h
  obtain ⟨b, p, rfl⟩ := List.exists_cons_of_ne_nil hnil
  obtain ⟨rfl, hrest⟩ := List.cons_prefix_cons.mp hp
  have hinner : p <+: bs := by
    rcases List.prefix_concat_iff.mp hrest with rfl | hinner
    · exact absurd rfl hne
    · exact hinner
  exact (hbs.stays 1).of_isPrefix hinner

/-- No text in braces begins with another. -/
theorem Braced.eq_of_isPrefix (h : Braced v) (h' : Braced v') (hp : v <+: v') : v = v' := by
  by_contra hne
  have hnil : v ≠ [] := by
    obtain ⟨bs, -, rfl⟩ := h
    exact List.cons_ne_nil _ _
  exact (h'.deep_of_isPrefix hp hnil hne).ne_outside h.settles

end Values

end DelayedQueue.Json
