import DelayedQueue.Proofs.Json.Printer
import DelayedQueue.Proofs.Message.Grammar

/-! # Written rows are read back

The row of a message decodes to the message with its times in whole milliseconds, and what a
row decodes to has no others. So a message comes back as it was if its times were whole, and a
row that has been read once is written and read for ever after without a change. A time within a
leap second is not whole in this sense: its milliseconds are those of the second after it, which
is what comes back.
-/

namespace DelayedQueue

namespace Time

variable {t : Time} {k : Int}

theorem IsMillis.floorMillis (h : t.IsMillis k) : t.floorMillis = t := by
  refine ext_nanos ?_ h.leap.symm
  have := h.nanos
  simp only [Time.floorMillis, millis]
  omega

theorem isMillis_floorMillis (t : Time) : t.floorMillis.IsMillis t.millis := ⟨rfl, rfl⟩

theorem floorMillis_floorMillis (t : Time) : t.floorMillis.floorMillis = t.floorMillis :=
  t.isMillis_floorMillis.floorMillis

end Time

namespace Message

/-- The times that a message has. -/
def times (m : Message) : List Time := m.createAt :: (m.deliverAt.toList ++ m.redeliverAt.toList)

end Message

namespace Row
open Json (Tree Text Numeral)

section Unread

variable {row : Bytes}

theorem exists_error_of_ne_ok (h : ∀ m, decode row ≠ .ok m) : ∃ f, decode row = .error f := by
  cases hd : decode row with
  | error f => exact ⟨f, rfl⟩
  | ok m => exact absurd hd (h m)

theorem exists_error (h : (decode row).toOption = none) : ∃ f, decode row = .error f := by
  refine exists_error_of_ne_ok fun m hm => ?_
  rw [hm] at h
  cases h

end Unread

section Written

def timeTree (t : Time) : Tree := .number (.ofInt t.millis)

def optionalTree (f : Field) (o : Option Time) : List (Field × Tree) :=
  o.toList.map fun t => (f, timeTree t)

/-- The fields that are written for a message. -/
def fieldTrees (m : Message) : List (Field × Tree) :=
  [(.id, .string (.ofString m.id)),
    (.payload, .array (m.payload.map fun b => .number (.ofInt b.toNat)) true),
    (.createAt, timeTree m.createAt)] ++
  optionalTree .deliverAt m.deliverAt ++ optionalTree .redeliverAt m.redeliverAt ++
  [(.deliveries, .number (.ofInt m.deliveries.toNat))]

theorem isTime_timeTree (t : Time) : IsTime Numeral.Integer (timeTree t) t.floorMillis :=
  ⟨t.millis, ⟨_, rfl, Numeral.integer_ofInt _⟩, t.isMillis_floorMillis⟩

theorem isBytes_array (bs : Bytes) :
    IsBytes Numeral.Integer (.array (bs.map fun b => .number (.ofInt b.toNat)) true) bs := by
  refine .inl ⟨_, rfl, ?_⟩
  rw [List.forall₂_map_left_iff, List.forall₂_same]
  exact fun b _ => ⟨_, rfl, Numeral.integer_ofInt _⟩

theorem nodup_fieldTrees (m : Message) : ((fieldTrees m).map Prod.fst).Nodup := by
  obtain ⟨-, -, -, deliverAt, redeliverAt, -⟩ := m
  cases deliverAt <;> cases redeliverAt <;> simp [fieldTrees, optionalTree]

theorem holds_fieldTrees (m : Message) (f : Field) :
    Holds Numeral.Integer m.floorMillis f ((fieldTrees m).lookup f) := by
  obtain ⟨id, payload, createAt, deliverAt, redeliverAt, deliveries⟩ := m
  cases f with
  | id => exact ⟨_, rfl, Text.denotes_ofString id⟩
  | payload => exact isBytes_array payload
  | createAt => exact isTime_timeTree createAt
  | deliverAt =>
    cases deliverAt with
    | none => cases redeliverAt <;> rfl
    | some t => exact .inr ⟨_, rfl, isTime_timeTree t⟩
  | redeliverAt =>
    cases redeliverAt with
    | none => cases deliverAt <;> rfl
    | some t => cases deliverAt <;> exact .inr ⟨_, rfl, isTime_timeTree t⟩
  | deliveries =>
    have : IsCount Numeral.Integer (.number (.ofInt deliveries.toNat)) deliveries :=
      ⟨_, rfl, Numeral.integer_ofInt _⟩
    cases deliverAt <;> cases redeliverAt <;> exact this

theorem value_encode (m : Message) :
    Json.Value (.object ((fieldTrees m).map fieldMember) true) (encode m) := by
  refine Json.value_object ?_
  have htime : ∀ f t, Json.Member (.ofString (Field.key f)) (timeTree t) (timeMember f t) :=
    fun f t => Json.member_member (Json.value_number _)
  have hopt : ∀ f o, List.Forall₂ (fun m b => Json.Member m.1 m.2 b)
      ((optionalTree f o).map fieldMember) (optionalTime f o) := by
    intro f o
    cases o with
    | none => exact .nil
    | some t => exact .cons (htime f t) .nil
  have hpayload : Json.Value
      (.array (m.payload.map fun b => Tree.number (.ofInt b.toNat)) true)
      (Json.array (m.payload.map fun b => Json.digits b.toNat)) := by
    refine Json.value_array ?_
    rw [List.forall₂_map_left_iff, List.forall₂_map_right_iff, List.forall₂_same]
    exact fun b _ => Json.integer_natCast b.toNat ▸ Json.value_number b.toNat
  have hcount : Json.Value (.number (.ofInt m.deliveries.toNat))
      (Json.digits m.deliveries.toNat) :=
    Json.integer_natCast m.deliveries.toNat ▸ Json.value_number m.deliveries.toNat
  simp only [fieldTrees, members, List.map_append]
  refine List.rel_append (List.rel_append (List.rel_append ?_ (hopt _ _)) (hopt _ _)) ?_
  · exact .cons (Json.member_member (Json.value_quote m.id))
      (.cons (Json.member_member hpayload) (.cons (htime _ _) .nil))
  · exact .cons (Json.member_member hcount) .nil

theorem decode_encode (m : Message) : decode (encode m) = .ok m.floorMillis :=
  decode_of_isRow ⟨_, (value_encode m).element,
    .object fun f => ⟨_, lookup_fieldMembers (nodup_fieldTrees m), holds_fieldTrees m f⟩⟩

end Written

section Whole

variable {m : Message} {t : Tree} {u : Time} {o : Option Time} {row : Bytes}

theorem IsTime.floorMillis (h : IsTime Numeral.Integer t u) : u.floorMillis = u := by
  obtain ⟨k, -, h⟩ := h
  exact h.floorMillis

theorem IsOptionalTime.floorMillis (h : IsOptionalTime Numeral.Integer t o) :
    o.map Time.floorMillis = o := by
  rcases h with ⟨-, rfl⟩ | ⟨u, rfl, h⟩
  · rfl
  · rw [Option.map_some, h.floorMillis]

theorem Describes.holds {Lit : Numeral → Int → Prop} (h : Describes Lit m t) (f : Field) :
    ∃ o, Holds Lit m f o := by
  cases h with
  | object h => exact (h f).imp fun _ => And.right
  | array h =>
    obtain ⟨i, hi⟩ : ∃ i : Nat, Field.all[i]? = some f :=
      List.mem_iff_getElem?.mp (by cases f <;> decide)
    exact ⟨_, h.2.2 i f hi⟩

theorem floorMillis_of_decode (h : decode row = .ok m) : m.floorMillis = m := by
  obtain ⟨t, -, ht⟩ := isRow_of_decode h
  have hcreate : m.createAt.floorMillis = m.createAt := by
    obtain ⟨_ | t, h⟩ := ht.holds .createAt
    · exact h.elim
    · exact IsTime.floorMillis h
  have hdeliver : m.deliverAt.map Time.floorMillis = m.deliverAt := by
    obtain ⟨_ | t, h⟩ := ht.holds .deliverAt
    · rw [show m.deliverAt = none from h, Option.map_none]
    · exact IsOptionalTime.floorMillis h
  have hredeliver : m.redeliverAt.map Time.floorMillis = m.redeliverAt := by
    obtain ⟨_ | t, h⟩ := ht.holds .redeliverAt
    · rw [show m.redeliverAt = none from h, Option.map_none]
    · exact IsOptionalTime.floorMillis h
  simp only [Message.floorMillis, hcreate, hdeliver, hredeliver]

/-- The first moment of the leap second at the end of 2016. -/
def leapSecond : Time := ⟨1483228800000000000, true, by decide, by decide, fun _ => by decide⟩

example : (decode (encode ⟨"a", [], leapSecond, none, none, 0⟩)).toOption =
    some ⟨"a", [], leapSecond.floorMillis, none, none, 0⟩ := by decide +kernel

end Whole

end Row

end DelayedQueue
