import DelayedQueue.Proofs.Json.Printer
import DelayedQueue.Proofs.Message.Field

/-! # The grammar of rows

Which bytes are a row of which message. A row is an object with the fields under their keys
or an array with the fields in order, and exactly such rows decode, each to the message it
describes.
-/

namespace DelayedQueue.Row
open Json (Tree Text Numeral)

/-- Every key can be read, at most one of them is `s`, and this is its value if there is one. -/
inductive Lookup (s : String) : List (Text × Tree) → Option Tree → Prop where

  | nil : Lookup s [] none

  | other {k : Text} {s' : String} {t : Tree} {ms : List (Text × Tree)} {o : Option Tree} :
      Text.Denotes k.body s'.toList → s' ≠ s → Lookup s ms o → Lookup s ((k, t) :: ms) o

  | here {k : Text} {t : Tree} {ms : List (Text × Tree)} :
      Text.Denotes k.body s.toList → Lookup s ms none → Lookup s ((k, t) :: ms) (some t)

section Rows

variable (Lit : Numeral → Int → Prop)

/-- Members in any order, among them any unknown ones. -/
def IsObject (m : Message) (ms : List (Text × Tree)) : Prop :=
  ∀ f : Field, ∃ o, Lookup f.key ms o ∧ Holds Lit m f o

/-- The first fields in order, at least the three that have no default. -/
def IsArray (m : Message) (items : List Tree) : Prop :=
  3 ≤ items.length ∧ items.length ≤ Field.all.length ∧
    ∀ (i : Nat) (f : Field), Field.all[i]? = some f → Holds Lit m f items[i]?

inductive Describes (m : Message) : Tree → Prop where

  | object {ms : List (Text × Tree)} : IsObject Lit m ms → Describes m (.object ms true)

  | array {items : List Tree} : IsArray Lit m items → Describes m (.array items true)

variable {Lit}

theorem describes_object_iff {m : Message} {ms : List (Text × Tree)} :
    Describes Lit m (.object ms true) ↔ IsObject Lit m ms := by
  constructor
  · rintro ⟨h⟩; exact h
  · exact .object

theorem describes_array_iff {m : Message} {items : List Tree} :
    Describes Lit m (.array items true) ↔ IsArray Lit m items := by
  constructor
  · rintro ⟨⟩; assumption
  · exact .array

variable (Lit)

/-- The row is a text of JSON, blanks around it included, that describes the message. -/
def IsRow (row : Bytes) (m : Message) : Prop := ∃ t, Json.Element t row ∧ Describes Lit m t

end Rows

section Gathering

variable {d d' : Gathered} {m : Message} {f g : Field} {t : Tree} {v : Bytes} {o : Option Tree}

/-- The field has been seen, with the value it has in the message. -/
def Gathered.Agrees (d : Gathered) (m : Message) : Field → Prop
  | .id => d.id = some m.id
  | .payload => d.payload = some m.payload
  | .createAt => d.createAt = some m.createAt
  | .deliverAt => d.deliverAt = some m.deliverAt
  | .redeliverAt => d.redeliverAt = some m.redeliverAt
  | .deliveries => d.deliveries = some m.deliveries

/-- What has been seen and what is still to come give the field together, and only once. -/
def Gathered.Completes (d : Gathered) (m : Message) (f : Field) (o : Option Tree) : Prop :=
  if d.has f then o = none ∧ d.Agrees m f else Holds Numeral.Integer m f o

theorem map_eq_ok_iff {ε α β : Type} {x : Except ε α} {k : α → β} {b : β} :
    x.map k = .ok b ↔ ∃ a, x = .ok a ∧ k a = b := by
  cases x <;> simp [Except.map]

theorem forall_field_iff {p : Field → Prop} :
    (∀ f, p f) ↔
      p .id ∧ p .payload ∧ p .createAt ∧ p .deliverAt ∧ p .redeliverAt ∧ p .deliveries := by
  constructor
  · intro h; exact ⟨h _, h _, h _, h _, h _, h _⟩
  · rintro ⟨_, _, _, _, _, _⟩ f; cases f <;> assumption

theorem toMessage_eq_ok_iff : d.toMessage = .ok m ↔ ∀ f, d.Completes m f none := by
  obtain ⟨id, payload, createAt, deliverAt, redeliverAt, deliveries⟩ := d
  obtain ⟨id', payload', createAt', deliverAt', redeliverAt', deliveries'⟩ := m
  rw [forall_field_iff]
  simp only [Gathered.Completes, Gathered.has, Gathered.Agrees, Holds, Omits, true_and]
  cases id <;> cases payload <;> cases createAt <;> simp only [Gathered.toMessage, reduceCtorEq,
    Option.isSome_none, Option.isSome_some, Bool.false_eq_true, if_false, if_true, false_and,
    and_false]
  cases deliverAt <;> cases redeliverAt <;> cases deliveries <;> simp [eq_comm]

theorem read_agrees_iff (hv : Json.Value t v) :
    (∃ d', d.read f t = .ok d' ∧ d'.Agrees m f) ↔ Gives Numeral.Integer m t f := by
  cases f <;>
    simp only [Gathered.read, map_eq_ok_iff, Gathered.Agrees, Gives, ← readString_eq_ok_iff hv,
      ← readPayload_eq_ok_iff, ← readTime_eq_ok_iff, ← readOptionalTime_eq_ok_iff,
      ← readCount_eq_ok_iff] <;>
    constructor
  all_goals first
    | rintro ⟨d', ⟨v, hv, rfl⟩, h⟩; cases h; exact hv
    | exact fun h => ⟨_, ⟨_, h, rfl⟩, rfl⟩

theorem has_of_read (h : d.read f t = .ok d') : d'.has f = true := by
  cases f <;> obtain ⟨v, -, rfl⟩ := map_eq_ok_iff.mp h <;> rfl

theorem has_of_read_ne (h : d.read f t = .ok d') (hg : g ≠ f) : d'.has g = d.has g := by
  cases f <;> obtain ⟨v, -, rfl⟩ := map_eq_ok_iff.mp h <;> cases g <;> first | rfl | simp at hg

theorem agrees_of_read_ne (h : d.read f t = .ok d') (hg : g ≠ f) :
    d'.Agrees m g ↔ d.Agrees m g := by
  cases f <;> obtain ⟨v, -, rfl⟩ := map_eq_ok_iff.mp h <;> cases g <;>
    first | rfl | simp at hg

theorem completes_of_read_ne (h : d.read f t = .ok d') (hg : g ≠ f) :
    d'.Completes m g o ↔ d.Completes m g o := by
  unfold Gathered.Completes
  rw [has_of_read_ne h hg, agrees_of_read_ne h hg]

theorem completes_of_has (h : d.has f = true) : d.Completes m f o ↔ o = none ∧ d.Agrees m f := by
  rw [Gathered.Completes, if_pos h]

theorem completes_some_iff (hv : Json.Value t v) (hf : d.has f = false) :
    d.Completes m f (some t) ↔ ∃ d', d.read f t = .ok d' ∧ d'.Completes m f none := by
  rw [Gathered.Completes, if_neg (by simp [hf])]
  refine (read_agrees_iff (d := d) hv).symm.trans ?_
  refine exists_congr fun d' => and_congr_right fun hr => ?_
  rw [completes_of_has (has_of_read hr)]
  exact (and_iff_right rfl).symm

end Gathering

section Objects

variable {d : Gathered} {m : Message} {f : Field} {k : Text} {s s' : String} {t : Tree}
  {v : Bytes} {ms : List (Text × Tree)} {o : Option Tree}

theorem lookup_cons_iff (hb : Text.Body k.body) (hk : k.value? = some s') :
    Lookup s ((k, t) :: ms) o ↔
      if s' = s then o = some t ∧ Lookup s ms none else Lookup s ms o := by
  have hd := (Json.Text.value?_eq_some_iff hb).mp hk
  constructor
  · intro h
    cases h with
    | @other _ s'' _ _ _ h hne hms =>
      obtain rfl : s'' = s' := by simpa [hk, eq_comm] using (Json.Text.value?_eq_some_iff hb).mpr h
      rw [if_neg hne]; exact hms
    | here h hms =>
      obtain rfl : s = s' := by simpa [hk, eq_comm] using (Json.Text.value?_eq_some_iff hb).mpr h
      rw [if_pos rfl]; exact ⟨rfl, hms⟩
  · split
    · next h => subst h; rintro ⟨rfl, h⟩; exact .here hd h
    · next hne => exact .other hd hne

theorem Lookup.unique {o' : Option Tree} (h : Lookup s ms o) (h' : Lookup s ms o') : o = o' := by
  induction h generalizing o' with
  | nil => cases h'; rfl
  | other hk hne _ ih =>
    cases h' with
    | other _ _ h' => exact ih h'
    | here hk' => exact absurd (String.toList_inj.mp (hk.chars_unique hk')) hne
  | here hk _ ih =>
    cases h' with
    | other hk' hne => exact absurd (String.toList_inj.mp (hk'.chars_unique hk)) hne
    | here => rfl

theorem not_lookup_of_unread (hb : Text.Body k.body) (hk : k.value? = none) :
    ¬ Lookup s ((k, t) :: ms) o := by
  intro h
  cases h with
  | other h => simp [(Json.Text.value?_eq_some_iff hb).mpr h] at hk
  | here h => simp [(Json.Text.value?_eq_some_iff hb).mpr h] at hk

theorem ofKey?_key (f : Field) : Field.ofKey? f.key = some f := by cases f <;> decide

theorem ofKey?_eq_some_iff : Field.ofKey? s = some f ↔ s = f.key := by
  constructor
  · intro h
    unfold Field.ofKey? at h
    have hb := List.find?_some h
    exact (beq_iff_eq.mp hb).symm
  · rintro rfl; exact ofKey?_key f

theorem key_injective {g : Field} (h : f.key = g.key) : f = g := by
  have := ofKey?_key f
  rw [h, ofKey?_key g] at this
  exact (Option.some.inj this).symm

theorem lookup_unknown (hb : Text.Body k.body) (hk : k.value? = some s')
    (hf : Field.ofKey? s' = none) : Lookup f.key ((k, t) :: ms) o ↔ Lookup f.key ms o := by
  rw [lookup_cons_iff hb hk, if_neg]
  rintro rfl
  rw [ofKey?_key] at hf
  cases hf

theorem lookup_known_ne {g : Field} (hb : Text.Body k.body) (hk : k.value? = some g.key)
    (hg : f ≠ g) : Lookup f.key ((k, t) :: ms) o ↔ Lookup f.key ms o := by
  rw [lookup_cons_iff hb hk, if_neg]
  exact fun h => hg (key_injective h).symm

theorem lookup_known_self (hb : Text.Body k.body) (hk : k.value? = some f.key) :
    Lookup f.key ((k, t) :: ms) o ↔ o = some t ∧ Lookup f.key ms none := by
  rw [lookup_cons_iff hb hk, if_pos rfl]

/-- What has been seen and the members still to come give every field together. -/
def Gathered.CompletesBy (d : Gathered) (m : Message) (ms : List (Text × Tree)) : Prop :=
  ∀ f : Field, ∃ o, Lookup f.key ms o ∧ d.Completes m f o

theorem completesBy_nil_iff : d.CompletesBy m [] ↔ d.toMessage = .ok m := by
  rw [toMessage_eq_ok_iff]
  refine forall_congr' fun f => ⟨?_, fun h => ⟨none, .nil, h⟩⟩
  rintro ⟨_, ⟨⟩, h⟩; exact h

theorem completesBy_known_iff {g : Field} (hb : Text.Body k.body) (hv : Json.Value t v)
    (hk : k.value? = some g.key) (hg : d.has g = false) :
    d.CompletesBy m ((k, t) :: ms) ↔ ∃ d', d.read g t = .ok d' ∧ d'.CompletesBy m ms := by
  constructor
  · intro h
    obtain ⟨o, ho, hc⟩ := h g
    obtain ⟨rfl, hn⟩ := (lookup_known_self hb hk).mp ho
    obtain ⟨d', hr, hc'⟩ := (completes_some_iff hv hg).mp hc
    refine ⟨d', hr, fun f => ?_⟩
    by_cases hfg : f = g
    · subst hfg; exact ⟨none, hn, hc'⟩
    · obtain ⟨o, ho, hc⟩ := h f
      exact ⟨o, (lookup_known_ne hb hk hfg).mp ho, (completes_of_read_ne hr hfg).mpr hc⟩
  · rintro ⟨d', hr, h⟩ f
    obtain ⟨o, ho, hc⟩ := h f
    by_cases hfg : f = g
    · subst hfg
      obtain ⟨rfl, -⟩ := (completes_of_has (has_of_read hr)).mp hc
      exact ⟨some t, (lookup_known_self hb hk).mpr ⟨rfl, ho⟩,
        (completes_some_iff hv hg).mpr ⟨d', hr, hc⟩⟩
    · exact ⟨o, (lookup_known_ne hb hk hfg).mpr ho, (completes_of_read_ne hr hfg).mp hc⟩

theorem completesBy_cons_iff (hb : Text.Body k.body) (hv : Json.Value t v) :
    d.CompletesBy m ((k, t) :: ms) ↔ ∃ d', d.readMember k t = .ok d' ∧ d'.CompletesBy m ms := by
  unfold Gathered.readMember
  cases hk : k.value? with
  | none =>
    simp only [reduceCtorEq, false_and, exists_false, iff_false]
    intro h
    obtain ⟨o, ho, -⟩ := h .id
    exact not_lookup_of_unread hb hk ho
  | some s =>
    cases hf : Field.ofKey? s with
    | none =>
      simp only [hf, hv.intact, if_true, Except.ok.injEq, exists_eq_left', Gathered.CompletesBy,
        lookup_unknown hb hk hf]
    | some g =>
      obtain rfl := ofKey?_eq_some_iff.mp hf
      simp only [hf]
      cases hg : d.has g with
      | true =>
        simp only [if_true, reduceCtorEq, false_and, exists_false, iff_false]
        intro h
        obtain ⟨o, ho, hc⟩ := h g
        obtain ⟨rfl, -⟩ := (lookup_known_self hb hk).mp ho
        cases ((completes_of_has hg).mp hc).1
      | false => exact completesBy_known_iff hb hv hk hg

/-- The members of an object, read after those that gave `d`. -/
theorem readMembers_iff (hms : ∀ k t, (k, t) ∈ ms → Text.Body k.body ∧ ∃ v, Json.Value t v) :
    (∃ d', d.readMembers ms = .ok d' ∧ d'.toMessage = .ok m) ↔ d.CompletesBy m ms := by
  induction ms generalizing d with
  | nil => simp only [Gathered.readMembers, Except.ok.injEq, exists_eq_left', completesBy_nil_iff]
  | cons kt ms ih =>
    obtain ⟨k, t⟩ := kt
    obtain ⟨hb, v, hv⟩ := hms k t List.mem_cons_self
    have hms' := fun k t h => hms k t (List.mem_cons_of_mem _ h)
    rw [completesBy_cons_iff hb hv, Gathered.readMembers]
    cases d.readMember k t with
    | error e => simp
    | ok d' => simp only [ih hms', Except.ok.injEq, exists_eq_left']

/-- A member as it is printed for a field. -/
def fieldMember (ft : Field × Tree) : Text × Tree := (.ofString ft.1.key, ft.2)

theorem lookup_fieldMembers {fts : List (Field × Tree)} (h : (fts.map Prod.fst).Nodup) :
    Lookup f.key (fts.map fieldMember) (fts.lookup f) := by
  induction fts with
  | nil => exact .nil
  | cons ft fts ih =>
    obtain ⟨g, t⟩ := ft
    simp only [List.map_cons, List.nodup_cons] at h
    obtain ⟨hg, hfts⟩ := h
    by_cases hf : f = g
    · subst hf
      have hn : fts.lookup f = none := by
        rw [List.lookup_eq_none_iff]
        intro p hp
        have hne : f ≠ p.1 := fun he => hg (he ▸ List.mem_map_of_mem hp)
        exact bne_iff_ne.mpr hne
      rw [List.lookup_cons_self]
      exact .here (Text.denotes_ofString _) (hn ▸ ih hfts)
    · rw [List.lookup_cons, beq_false_of_ne hf]
      exact .other (Text.denotes_ofString _) (fun he => hf (key_injective he).symm) (ih hfts)

end Objects

section Arrays

variable {d : Gathered} {m : Message} {f : Field} {fs : List Field} {t : Tree} {ts : List Tree}
  {v : Bytes}

/-- What has been seen and the elements still to come, read against `fs`, give every field
together. -/
def Gathered.CompletesInOrder (d : Gathered) (m : Message) (fs : List Field) (ts : List Tree) :
    Prop :=
  ts.length ≤ fs.length ∧ (∀ (i : Nat) (f : Field), fs[i]? = some f → d.Completes m f ts[i]?) ∧
    ∀ f, f ∉ fs → d.Completes m f none

theorem completesInOrder_nil_iff : d.CompletesInOrder m fs [] ↔ d.toMessage = .ok m := by
  rw [toMessage_eq_ok_iff]
  constructor
  · rintro ⟨-, hin, hout⟩ f
    by_cases hf : f ∈ fs
    · obtain ⟨i, hi, rfl⟩ := List.mem_iff_getElem.mp hf
      exact hin i _ (List.getElem?_eq_getElem hi)
    · exact hout f hf
  · exact fun h => ⟨Nat.zero_le _, fun _ f _ => h f, fun f _ => h f⟩

theorem completesInOrder_cons_iff (hv : Json.Value t v) (hf : f ∉ fs) (hd : d.has f = false) :
    d.CompletesInOrder m (f :: fs) (t :: ts) ↔
      ∃ d', d.read f t = .ok d' ∧ d'.CompletesInOrder m fs ts := by
  have hne : ∀ {i : Nat} {g : Field}, fs[i]? = some g → g ≠ f := fun hg h =>
    hf (h ▸ List.mem_of_getElem? hg)
  constructor
  · rintro ⟨hl, hin, hout⟩
    obtain ⟨d', hr, hc⟩ := (completes_some_iff hv hd).mp (hin 0 f rfl)
    refine ⟨d', hr, Nat.le_of_succ_le_succ hl, fun i g hg => ?_, fun g hg => ?_⟩
    · exact (completes_of_read_ne hr (hne hg)).mpr (hin (i + 1) g hg)
    · by_cases hgf : g = f
      · subst hgf; exact hc
      · exact (completes_of_read_ne hr hgf).mpr
          (hout g (mt List.mem_cons.mp (not_or.mpr ⟨hgf, hg⟩)))
  · rintro ⟨d', hr, hl, hin, hout⟩
    refine ⟨Nat.succ_le_succ hl, ?_, fun g hg => ?_⟩
    · rintro (_ | i) g hg
      · cases hg
        exact (completes_some_iff hv hd).mpr ⟨d', hr, hout _ hf⟩
      · exact (completes_of_read_ne hr (hne hg)).mp (hin i g hg)
    · obtain ⟨hgf, hgs⟩ := not_or.mp (mt List.mem_cons.mpr hg)
      exact (completes_of_read_ne hr hgf).mp (hout g hgs)

/-- The elements of an array, read against the fields `fs` after those that gave `d`. -/
theorem readElements_iff {n : Nat} (hts : ∀ t ∈ ts, ∃ v, Json.Value t v) (hfs : fs.Nodup)
    (hd : ∀ f ∈ fs, d.has f = false) :
    (∃ d', readElements d n fs ts = .ok d' ∧ d'.toMessage = .ok m) ↔
      3 ≤ n + ts.length ∧ d.CompletesInOrder m fs ts := by
  induction ts generalizing d n fs with
  | nil =>
    rw [completesInOrder_nil_iff, readElements]
    split
    · next h => simp; omega
    · next h =>
      simp only [Except.ok.injEq, exists_eq_left', List.length_nil]
      exact (and_iff_right (by omega)).symm
  | cons t ts ih =>
    obtain ⟨v, hv⟩ := hts t List.mem_cons_self
    have hts' := fun t h => hts t (List.mem_cons_of_mem _ h)
    cases fs with
    | nil => simp [readElements, Gathered.CompletesInOrder]
    | cons f fs =>
      obtain ⟨hf, hfs⟩ := List.nodup_cons.mp hfs
      rw [completesInOrder_cons_iff hv hf (hd f List.mem_cons_self), readElements]
      cases hr : d.read f t with
      | error e => simp
      | ok d' =>
        have hd' : ∀ g ∈ fs, d'.has g = false := by
          intro g hg
          rw [has_of_read_ne hr fun h => hf (h ▸ hg)]
          exact hd g (List.mem_cons_of_mem _ hg)
        simp only [ih hts' hfs hd', Except.ok.injEq, exists_eq_left', List.length_cons]
        exact and_congr_left' (by omega)

end Arrays

section Decoding

variable {m : Message} {t : Tree} {v row : Bytes}

theorem completes_empty_iff {f : Field} {o : Option Tree} :
    Gathered.Completes {} m f o ↔ Holds Numeral.Integer m f o := by
  cases f <;> simp [Gathered.Completes, Gathered.has]

theorem readMessage_object_iff {ms : List (Text × Tree)} (hv : Json.Value (.object ms true) v) :
    readMessage (.object ms true) = .ok m ↔ IsObject Numeral.Integer m ms := by
  have hms : ∀ k t, (k, t) ∈ ms → Text.Body k.body ∧ ∃ v, Json.Value t v := by
    cases hv with
    | literal h => simp [Json.literals] at h
    | emptyObject => simp
    | object h => exact fun k t => h.value_of_mem
  have hr := readMembers_iff (d := {}) (m := m) hms
  simp only [Gathered.CompletesBy, completes_empty_iff] at hr
  rw [IsObject, ← hr]
  simp only [readMessage, if_true]
  split <;> simp [*]

theorem readMessage_array_iff {items : List Tree} (hv : Json.Value (.array items true) v) :
    readMessage (.array items true) = .ok m ↔ IsArray Numeral.Integer m items := by
  have hts : ∀ t ∈ items, ∃ v, Json.Value t v := by
    cases hv with
    | literal h => simp [Json.literals] at h
    | emptyArray => simp
    | array h => exact fun t => h.value_of_mem
  have hfs : Field.all.Nodup := by decide
  have hr := readElements_iff (d := {}) (m := m) (n := 0) hts hfs (by decide)
  have hall : ∀ f, f ∈ Field.all := by intro f; cases f <;> decide
  simp only [Gathered.CompletesInOrder, completes_empty_iff, hall, not_true_eq_false,
    false_implies, implies_true, and_true, Nat.zero_add] at hr
  rw [IsArray, ← hr]
  simp only [readMessage, if_true]
  split <;> simp [*]

theorem readMessage_ne_ok (ho : ∀ ms closed, t ≠ .object ms closed)
    (ha : ∀ items closed, t ≠ .array items closed) : readMessage t ≠ .ok m := by
  cases t with
  | object => exact absurd rfl (ho _ _)
  | array => exact absurd rfl (ha _ _)
  | _ => rw [readMessage]; exacts [wrongType_ne_ok, nofun, nofun]

theorem readMessage_eq_ok_iff (hv : Json.Value t v) :
    readMessage t = .ok m ↔ Describes Numeral.Integer m t := by
  have hother (h : (∀ ms c, t ≠ .object ms c) ∧ ∀ items c, t ≠ .array items c) :
      readMessage t = .ok m ↔ Describes Numeral.Integer m t := by
    constructor
    · intro hr
      exact absurd hr (readMessage_ne_ok h.1 h.2)
    · rintro (⟨-⟩ | ⟨-⟩)
      · exact absurd rfl (h.1 _ _)
      · exact absurd rfl (h.2 _ _)
  cases hv with
  | literal h =>
    simp only [Json.literals, List.mem_cons, Prod.mk.injEq, List.not_mem_nil, or_false] at h
    rcases h with ⟨-, rfl⟩ | ⟨-, rfl⟩ | ⟨-, rfl⟩ <;> exact hother (by simp)
  | number | string => exact hother (by simp)
  | emptyArray h => rw [readMessage_array_iff (.emptyArray h), describes_array_iff]
  | array h => rw [readMessage_array_iff (.array h), describes_array_iff]
  | emptyObject h => rw [readMessage_object_iff (.emptyObject h), describes_object_iff]
  | object h => rw [readMessage_object_iff (.object h), describes_object_iff]

theorem decode_eq_ok_iff_read :
    decode row = .ok m ↔ ∃ t, Json.Element t row ∧ readMessage t = .ok m := by
  unfold decode
  constructor
  · intro h
    split at h
    next t rest hr =>
    split at h
    · cases h
    · next m' hm =>
      split at h
      · next he =>
        cases h
        obtain ⟨ws, rfl, hws⟩ := Json.endsClean_iff.mp he
        exact ⟨t, Json.read_iff_element.mp ⟨ws, hws, hr⟩, hm⟩
      · cases h
  · rintro ⟨t, ht, hm⟩
    obtain ⟨ws, hws, hr⟩ := Json.read_iff_element.mpr ht
    simp only [hr, hm]
    rw [if_pos (Json.endsClean_iff.mpr ⟨ws, rfl, hws⟩)]

end Decoding

theorem isRow_of_decode {row : Bytes} {m : Message} (h : decode row = .ok m) :
    IsRow Numeral.Integer row m := by
  obtain ⟨t, ht, hm⟩ := decode_eq_ok_iff_read.mp h
  obtain ⟨-, hv, -⟩ := id ht
  exact ⟨t, ht, (readMessage_eq_ok_iff hv).mp hm⟩

theorem decode_of_isRow {row : Bytes} {m : Message} (h : IsRow Numeral.Integer row m) :
    decode row = .ok m := by
  obtain ⟨t, ht, hm⟩ := h
  obtain ⟨-, hv, -⟩ := id ht
  exact decode_eq_ok_iff_read.mpr ⟨t, ht, (readMessage_eq_ok_iff hv).mpr hm⟩

/-- Exactly the rows of the grammar decode, and to the message they describe. -/
theorem decode_eq_ok_iff_isRow (row : Bytes) (m : Message) :
    decode row = .ok m ↔ IsRow Numeral.Integer row m :=
  ⟨isRow_of_decode, decode_of_isRow⟩

section MinusZero

def minusZero : Numeral := ⟨true, [0x30], [], none⟩

def minusZeroFields : List (Field × Tree) :=
  [(.id, .string (.ofString "a")), (.payload, .array [] true), (.createAt, .number minusZero)]

/-- A row that gives its time as `-0`. -/
def minusZeroRow : Bytes :=
  Json.object [Json.member Field.id.key (Json.quote "a"),
    Json.member Field.payload.key (Json.array []),
    Json.member Field.createAt.key [0x2D, 0x30]]

theorem value_minusZeroRow :
    Json.Value (.object (minusZeroFields.map fieldMember) true) minusZeroRow := by
  have hn : Json.Value (.number minusZero) [0x2D, 0x30] :=
    .number ⟨.zero, [], [], .none, .none, rfl⟩
  exact Json.value_object (.cons (Json.member_member (Json.value_quote _))
    (.cons (Json.member_member (Json.value_array .nil)) (.cons (Json.member_member hn) .nil)))

/-- Minus zero is an integer literal, yet no row that has it for a time decodes. -/
theorem minusZeroRow_not_decoded :
    IsRow Numeral.Literal minusZeroRow (Message.mk "a" [] .epoch none none 0) ∧
      ∀ m, decode minusZeroRow ≠ .ok m := by
  have hlookup : ∀ f, Lookup f.key (minusZeroFields.map fieldMember) (minusZeroFields.lookup f) :=
    fun f => lookup_fieldMembers (by decide)
  constructor
  · refine ⟨_, value_minusZeroRow.element, .object fun f => ⟨_, hlookup f, ?_⟩⟩
    cases f with
    | id => exact ⟨_, rfl, Text.denotes_ofString "a"⟩
    | payload => exact .inl ⟨[], rfl, .nil⟩
    | createAt => exact ⟨0, ⟨minusZero, rfl, rfl, rfl, by decide⟩, ⟨rfl, rfl⟩⟩
    | deliverAt | redeliverAt | deliveries => rfl
  · intro m h
    obtain ⟨t, ht, hd⟩ := isRow_of_decode h
    obtain rfl := ht.unique value_minusZeroRow.element
    cases hd with
    | object hd =>
      obtain ⟨o, ho, hc⟩ := hd .createAt
      obtain rfl := ho.unique (hlookup .createAt)
      obtain ⟨k, ⟨n, hn, hl, hz⟩, -⟩ := hc
      cases hn
      exact hz ⟨rfl, hl.2.2⟩

end MinusZero

end DelayedQueue.Row
