import DelayedQueue.Proofs.Config.Validity
import DelayedQueue.Proofs.Keys.Names

/-! # The slot of a queue

A cluster places a key by its hash tag, the text between the first opening brace and the first
closing one behind it, or by the whole key if there is no such text. The three keys of a queue have
one tag, the name up to its first closing brace, unless the name begins with one. Then nothing is
left between the braces, and each key is placed by itself.
-/

namespace DelayedQueue

namespace Keys

variable {name kind key : String}

/-- The part of a key by which a cluster places it. -/
def hashTag (key : String) : String :=
  match key.toList.dropWhile (· != '\x7b') with
  | [] => key
  | _ :: behind =>
    let tag := behind.takeWhile (· != '\x7d')
    if tag.isEmpty || tag.length == behind.length then key else String.ofList tag

/-- What stands before the first closing brace of a name. -/
def stem (name : String) : String := String.ofList (name.toList.takeWhile (· != '\x7d'))

theorem takeWhile_append_closing (cs ds : List Char) :
    (cs ++ '\x7d' :: ds).takeWhile (· != '\x7d') = cs.takeWhile (· != '\x7d') := by
  induction cs with
  | nil => rfl
  | cons c cs ih => simp only [List.cons_append, List.takeWhile_cons, ih]

theorem stem_eq_empty_iff : stem name = "" ↔ name = "" ∨ name.toList.head? = some '\x7d' := by
  have hempty (t : String) : t = "" ↔ t.toList = [] := by
    rw [← String.toList_inj]
    rfl
  rw [stem, hempty, hempty name, String.toList_ofList]
  cases name.toList with
  | nil => simp
  | cons c cs => by_cases h : c = '\x7d' <;> simp [h]

/-- The tag of a key is the stem of the queue's name, if anything is left of it. -/
theorem hashTag_tagged :
    hashTag (tagged name kind) = if stem name = "" then tagged name kind else stem name := by
  have hk : (tagged name kind).toList =
      ['d', 'q', ':', '\x7b'] ++ (name.toList ++ '\x7d' :: ':' :: kind.toList) := by
    simp [tagged]
  have hd : (tagged name kind).toList.dropWhile (· != '\x7b') =
      '\x7b' :: (name.toList ++ '\x7d' :: ':' :: kind.toList) := by
    rw [hk]
    rfl
  have hlen : (name.toList.takeWhile (· != '\x7d')).length ≠
      (name.toList ++ '\x7d' :: ':' :: kind.toList).length := by
    have := (List.takeWhile_sublist (l := name.toList) (· != '\x7d')).length_le
    rw [List.length_append, List.length_cons]
    omega
  have hempty : (name.toList.takeWhile (· != '\x7d')).isEmpty = true ↔ stem name = "" := by
    rw [stem, ← String.toList_inj, String.toList_ofList, List.isEmpty_iff]
    rfl
  unfold hashTag
  rw [hd]
  simp only [takeWhile_append_closing, Bool.or_eq_true, hempty, beq_iff_eq, hlen, or_false]
  rfl

end Keys

namespace Config

open Keys (hashTag stem)

variable {c : Config}

theorem name_ne_empty (h : c.validate = .ok ()) : c.name ≠ "" := by
  intro hn
  exact validate_eq_ok_iff.mp h _ (.emptyName (by rw [hn]; rfl))

/-- Of a queue with a valid configuration all keys have the stem of the name for their tag, and so
one slot, unless the name begins with a closing brace. With such a name, which is valid, each key is
its own tag, and no two keys of the queue have the same. -/
theorem one_slot (h : c.validate = .ok ()) :
    ((∀ key ∈ (Keys.ofName c.name).all, ∀ key' ∈ (Keys.ofName c.name).all,
      hashTag key = hashTag key') ↔ c.name.toList.head? ≠ some '\x7d') ∧
    ∀ key ∈ (Keys.ofName c.name).all,
      hashTag key = if c.name.toList.head? = some '\x7d' then key else stem c.name := by
  have htag : ∀ key ∈ (Keys.ofName c.name).all,
      hashTag key = if c.name.toList.head? = some '\x7d' then key else stem c.name := by
    intro key hk
    obtain ⟨kind, -, rfl⟩ := Keys.mem_all_ofName hk
    simp only [Keys.hashTag_tagged, Keys.stem_eq_empty_iff, name_ne_empty h, false_or]
  refine ⟨⟨fun hall hhead => ?_, fun hhead key hk key' hk' => ?_⟩, htag⟩
  · have hready : (Keys.ofName c.name).ready ∈ (Keys.ofName c.name).all := by simp [Keys.all]
    have hretry : (Keys.ofName c.name).retry ∈ (Keys.ofName c.name).all := by simp [Keys.all]
    have he := hall _ hready _ hretry
    rw [htag _ hready, htag _ hretry, if_pos hhead, if_pos hhead] at he
    exact absurd (Keys.tagged_inj (by decide) (by decide) he).2 (by decide)
  · rw [htag key hk, htag key' hk', if_neg hhead, if_neg hhead]

/-- A name with braces in it that does not begin with a closing one. -/
theorem one_slot_braces : ({ name := "\x7ba\x7db" } : Config).validate = .ok () ∧
    (∀ key ∈ (Keys.ofName "\x7ba\x7db").all, ∀ key' ∈ (Keys.ofName "\x7ba\x7db").all,
      hashTag key = hashTag key') ∧ hashTag (Keys.ofName "\x7ba\x7db").data = "\x7ba" := by
  have hv : ({ name := "\x7ba\x7db" } : Config).validate = .ok () := by decide +kernel
  obtain ⟨hone, htag⟩ := one_slot hv
  have hhead : "\x7ba\x7db".toList.head? ≠ some '\x7d' := by decide +kernel
  refine ⟨hv, hone.mpr hhead, (htag _ (by simp [Keys.all])).trans ?_⟩
  decide +kernel

/-- A valid name that begins with a closing brace. The braces of its keys hold nothing. -/
theorem slots_differ : ({ name := "\x7dx" } : Config).validate = .ok () ∧
    hashTag (Keys.ofName "\x7dx").ready ≠ hashTag (Keys.ofName "\x7dx").retry := by
  decide +kernel

end Config

end DelayedQueue
