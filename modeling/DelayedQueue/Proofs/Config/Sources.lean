import Mathlib
import DelayedQueue.Proofs.Config.Guess

/-! # Where a setting comes from

A variable, an entry of the file or the default: each setting has a source of its own, and the
settings can be read if and only if what each of them has for a source can be converted. Neither
what lies under other keys nor what a variable lies over makes a difference.
-/

namespace DelayedQueue

open Config (Value FileFormat Undivided)

variable {entries : List (String × Value)} {env : Environment}
  {file : Option (FileFormat × String)} {key : String} {v : Value}

namespace Layer

theorem eq_of_lowerChar_eq {c x : Char} (hx : x.isLower = false) (h : lowerChar c = x) : c = x := by
  subst h
  unfold lowerChar at hx ⊢
  split at hx
  · cases hx
  · next hk =>
    rw [if_neg hk]
    by_cases hc : c.isUpper
    · rw [Char.isLower_toLower_eq_isAlpha, Char.isAlpha, hc] at hx
      cases hx
    · exact (Char.toLower_eq_of_not_isUpper hc).symm

theorem undivided_lowerKey (h : Undivided key) : Undivided (lowerKey key) := by
  have hmem {x : Char} (hx : x.isLower = false) (hm : x ∈ (lowerKey key).toList) :
      x ∈ key.toList := by
    rw [lowerKey, String.toList_ofList] at hm
    obtain ⟨c, hc, hcx⟩ := List.mem_map.mp hm
    exact eq_of_lowerChar_eq hx hcx ▸ hc
  exact ⟨fun hm => h.1 (hmem (by decide) hm), fun hm => h.2 (hmem (by decide) hm)⟩

/-- The entries with their keys in lower case. -/
def lowered (entries : List (String × Value)) : List (String × Value) :=
  entries.map fun e => (lowerKey e.1, e.2)

end Layer

open Layer (lowerKey lowered)

namespace Config

section Files

/-- A member of an object that can be read, and the key and value that it gives. -/
def JsonEntry (depth : Nat) (m : Json.Text × Json.Tree) (e : String × Value) : Prop :=
  m.1.value? = some e.1 ∧ valueOfJson depth m.2 = some e.2

/-- The keys and values of a file, with the keys as they are spelled. Without a file there are
none. -/
inductive FileHolds : Option (FileFormat × String) → List (String × Value) → Prop where

  | absent : FileHolds none []

  | toml {text : String} {members : List (String × Toml.Item)} :
      Toml.read? text.toList = some members →
      FileHolds (some (.toml, text)) (members.map fun m => (m.1, valueOfToml m.2))

  | json {text : String} {members : List (Json.Text × Json.Tree)} {rest : Option Bytes}
      {entries : List (String × Value)} :
      Json.read (Utf8.encodeChars text.toList) = (.object members true, rest) →
      Json.endsClean rest = true →
      members.Forall₂ (JsonEntry (jsonDepthLimit - 1)) entries →
      FileHolds (some (.json, text)) entries

theorem membersOfToml_eq (members : List (String × Toml.Item)) :
    membersOfToml members = lowered (members.map fun m => (m.1, valueOfToml m.2)) := by
  induction members with
  | nil => rfl
  | cons m members ih =>
    rw [membersOfToml, ih]
    rfl

theorem lookup_lowered_eq_none (h : ∀ e ∈ entries, lowerKey e.1 ≠ key) :
    (lowered entries).lookup key = none := by
  rw [List.lookup_eq_none_iff]
  intro e he
  obtain ⟨e', he', rfl⟩ := List.mem_map.mp he
  exact bne_iff_ne.mpr (h e' he').symm

variable {depth : Nat} {members : List (Json.Text × Json.Tree)}

/-- No value is lost to a later one under its key. -/
theorem membersOfJson_eq (h : members.Forall₂ (JsonEntry depth) entries)
    (hn : (entries.map fun e => lowerKey e.1).Nodup) :
    membersOfJson depth members = some (lowered entries) := by
  induction h with
  | nil => rfl
  | @cons m e members entries hm _ ih =>
    rw [List.map_cons, List.nodup_cons] at hn
    have hlookup : (lowered entries).lookup (lowerKey e.1) = none :=
      lookup_lowered_eq_none fun e' he' heq => hn.1 (List.mem_map.mpr ⟨e', he', heq⟩)
    simp only [membersOfJson, hm.1, hm.2, ih hn.2, hlookup]
    rfl

end Files

/-- The value of the variable that is named for a key, if there is one. -/
def variableValue (env : Environment) (key : String) : Option Value :=
  (env.find? fun v => lowerKey v.1 == "dq__" ++ key).map fun v => .ofVariable v.2

/-- The value that a file has under a key in whatever case. -/
def fileValue (entries : List (String × Value)) (key : String) : Option Value :=
  (entries.find? fun e => lowerKey e.1 == key).map Prod.snd

/-- What the setting under a key is read from: its variable, or else its entry in the file. -/
def source (entries : List (String × Value)) (env : Environment) (key : String) : Option Value :=
  (variableValue env key).or (fileValue entries key)

/-- A file whose entries stand side by side, and variables, of which no two mean the same. -/
structure FlatSources (file : Option (FileFormat × String)) (entries : List (String × Value))
    (env : Environment) : Prop where
  holds : FileHolds file entries
  flat : ∀ e ∈ entries, Undivided e.1 ∧ e.2.IsPlain
  keys : (entries.map fun e => lowerKey e.1).Nodup
  undivided : ∀ v ∈ env, Undivided v.1
  names : (env.map fun v => lowerKey v.1).Nodup

theorem find?_eq_some_iff_of_nodup {α : Type} {f : α → String} {as : List α} {a : α}
    (h : (as.map f).Nodup) : as.find? (fun a => f a == key) = some a ↔ a ∈ as ∧ f a = key := by
  have hkey {b : α} (hf : as.find? (fun a => f a == key) = some b) : f b = key := by
    simpa using List.find?_some hf
  constructor
  · intro hf
    exact ⟨List.mem_of_find?_eq_some hf, hkey hf⟩
  · rintro ⟨ha, hk⟩
    cases hf : as.find? (fun a => f a == key) with
    | none => simpa [hk] using List.find?_eq_none.mp hf a ha
    | some b =>
      rw [List.inj_on_of_nodup_map h (List.mem_of_find?_eq_some hf) ha ((hkey hf).trans hk.symm)]

theorem lookup_reverse_eq {v? : Option Value} (h : ∀ v, (key, v) ∈ entries ↔ v? = some v) :
    entries.reverse.lookup key = v? := by
  ext v
  rw [lookup_eq_some_iff_mem, List.mem_reverse, h]
  intro v w hv hw
  rw [List.mem_reverse, h] at hv hw
  exact Option.some.inj (hv.symm.trans hw)

theorem variableEntry_eq_some_iff {x : String × String} :
    variableEntry x = some (key, v) ↔ lowerKey x.1 = "dq__" ++ key ∧ .ofVariable x.2 = v := by
  have hprefix : "dq__".toList = variablePrefix := by decide
  simp only [variableEntry, List.isPrefixOf_iff_prefix]
  split
  · next h =>
    obtain ⟨cs, hcs⟩ := h
    have hkey : String.ofList cs = key ↔ lowerKey x.1 = "dq__" ++ key := by
      rw [← String.toList_inj, ← String.toList_inj, String.toList_ofList, String.toList_append,
        hprefix, ← hcs, List.append_cancel_left_eq]
    rw [← hcs, List.drop_left' (by rfl), Option.some.injEq, Prod.mk.injEq, hkey]
  · next h =>
    simp only [reduceCtorEq, false_iff, not_and]
    intro hname
    refine absurd ⟨key.toList, ?_⟩ h
    rw [hname, String.toList_append, hprefix]

namespace FlatSources

variable (h : FlatSources file entries env)

include h

theorem mem_variables_iff : (key, v) ∈ env.filterMap variableEntry ↔
    variableValue env key = some v := by
  simp only [variableValue, Option.map_eq_some_iff, find?_eq_some_iff_of_nodup h.names,
    List.mem_filterMap, variableEntry_eq_some_iff, and_assoc]

theorem mem_lowered_iff : (key, v) ∈ lowered entries ↔ fileValue entries key = some v := by
  simp only [fileValue, Option.map_eq_some_iff, find?_eq_some_iff_of_nodup h.keys, lowered,
    List.mem_map, Prod.mk.injEq, and_assoc]

theorem flat_entries : ∀ e ∈ lowered entries ++ env.filterMap variableEntry,
    Undivided e.1 ∧ e.2.IsPlain := by
  intro e he
  rcases List.mem_append.mp he with he | he
  · obtain ⟨e', he', rfl⟩ := List.mem_map.mp he
    obtain ⟨hundivided, hplain⟩ := h.flat e' he'
    exact ⟨Layer.undivided_lowerKey hundivided, hplain⟩
  · obtain ⟨x, hx, he⟩ := List.mem_filterMap.mp he
    obtain ⟨hname, hvalue⟩ := variableEntry_eq_some_iff.mp he
    obtain ⟨hpoint, hbracket⟩ := Layer.undivided_lowerKey (h.undivided x hx)
    rw [hname, String.toList_append, List.mem_append, not_or] at hpoint hbracket
    exact ⟨⟨hpoint.2, hbracket.2⟩, hvalue ▸ Value.isPlain_ofVariable⟩

/-- The layer has the source of each key, and nothing else. -/
theorem exists_layer : ∃ l, Settings.layer (lowered entries) env = .ok l ∧
    ∀ key, l.get? key = source entries env key := by
  obtain ⟨l, hl, hget⟩ := Layer.putAll_of_undivided (l := []) h.flat_entries
  refine ⟨l, by rw [Settings.layer, hl], fun key => ?_⟩
  rw [hget, List.reverse_append, List.lookup_append, lookup_reverse_eq fun _ => h.mem_variables_iff,
    lookup_reverse_eq fun _ => h.mem_lowered_iff, Layer.get?, List.lookup_nil, Option.or_none]
  rfl

theorem load_eq_ok_iff {s : Settings} : Settings.load file env = .ok s ↔
    ∃ l, Settings.layer (lowered entries) env = .ok l ∧ Settings.ofLayer l = .ok s := by
  rw [← Settings.bind_eq_ok_iff]
  cases h.holds with
  | absent => rfl
  | toml hread =>
    simp only [Settings.load, readFile, readToml, hread, membersOfToml_eq]
    rfl
  | json hread hclean he =>
    have hvalue := membersOfJson_eq he h.keys
    simp only [Settings.load, readFile, readJson, hread, hclean, valueOfJson, hvalue]
    rfl

end FlatSources

end Config

end DelayedQueue
