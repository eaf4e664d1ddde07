import DelayedQueue.Message.Basic
import DelayedQueue.Json.Printer
import DelayedQueue.Json.Tree
import DelayedQueue.Text.Quoted

/-! # Rows

A message is stored as compact JSON with millisecond times. Reading a row accepts any
order of members, skips unknown ones, and takes an array of the fields as well as an
object. It stops at the first problem in document order.
-/

namespace DelayedQueue

inductive Field where
  | id
  | payload
  | createAt
  | deliverAt
  | redeliverAt
  | deliveries
  deriving DecidableEq, Repr

namespace Field

def all : List Field := [.id, .payload, .createAt, .deliverAt, .redeliverAt, .deliveries]

def key : Field → String
  | .id => "id"
  | .payload => "payload"
  | .createAt => "create_at"
  | .deliverAt => "deliver_at"
  | .redeliverAt => "re_deliver_at"
  | .deliveries => "deliver_cnt"

def ofKey? (k : String) : Option Field := all.find? fun f => f.key == k

end Field

namespace Row

/-- A value of the wrong kind, as far as it is told to the reader. -/
inductive Unexpected where
  | null
  | bool (b : Bool)
  | integer (n : Int)
  | fraction (x : Float)
  | string (s : String)
  | sequence
  | map
  deriving Repr

inductive Expected where
  | string
  | bytes
  | byte
  | milliseconds
  | count
  | message
  deriving DecidableEq, Repr

inductive Fault where
  /-- The text is not JSON, or what has to be read of it cannot be. -/
  | malformed
  | missing (f : Field)
  | duplicate (f : Field)
  | wrongType (u : Unexpected) (e : Expected)
  | outOfRange (n : Int) (e : Expected)
  /-- An empty object stands for an empty payload, any other is refused. -/
  | payloadEntries
  | illegalTime (n : Int)
  | tooFew (n : Nat)
  deriving Repr

section Encode

def timeMember (f : Field) (t : Time) : Bytes := Json.member f.key (Json.integer t.millis)

def optionalTime (f : Field) : Option Time → List Bytes
  | none => []
  | some t => [timeMember f t]

def members (m : Message) : List Bytes :=
  [Json.member Field.id.key (Json.quote m.id),
    Json.member Field.payload.key (Json.array (m.payload.map fun b => Json.digits b.toNat)),
    timeMember .createAt m.createAt] ++
  optionalTime .deliverAt m.deliverAt ++ optionalTime .redeliverAt m.redeliverAt ++
  [Json.member Field.deliveries.key (Json.digits m.deliveries.toNat)]

def encode (m : Message) : Bytes := Json.object (members m)

end Encode

section Decode
open Json (Tree Text)

/-- What to report about a value of the wrong kind. Containers are not looked into. -/
def unexpected : Tree → Except Fault Unexpected
  | .null => .ok .null
  | .bool b => .ok (.bool b)
  | .number n =>
    match n.read? with
    | none => .error .malformed
    | some (.unsigned k) => .ok (.integer k)
    | some (.negative k) => .ok (.integer k)
    | some (.fraction x) => .ok (.fraction x)
  | .string t =>
    match t.value? with
    | none => .error .malformed
    | some s => .ok (.string s)
  | .array .. => .ok .sequence
  | .object .. => .ok .map
  | .broken => .error .malformed

def wrongType {α : Type} (t : Tree) (e : Expected) : Except Fault α :=
  match unexpected t with
  | .ok u => .error (.wrongType u e)
  | .error f => .error f

/-- The integer of a literal, if it is one. -/
def integer? : Tree → Option Int
  | .number n =>
    match n.read? with
    | some (.unsigned k) => some k
    | some (.negative k) => some k
    | _ => none
  | _ => none

def readString : Tree → Except Fault String
  | .string t =>
    match t.value? with
    | none => .error .malformed
    | some s => .ok s
  | t => wrongType t .string

def readByte (t : Tree) : Except Fault UInt8 :=
  match integer? t with
  | some n => if 0 ≤ n ∧ n < 256 then .ok n.toNat.toUInt8 else .error (.outOfRange n .byte)
  | none => wrongType t .byte

def readBytes : List Tree → Except Fault Bytes
  | [] => .ok []
  | t :: ts =>
    match readByte t with
    | .error f => .error f
    | .ok b =>
      match readBytes ts with
      | .error f => .error f
      | .ok bs => .ok (b :: bs)

def readPayload : Tree → Except Fault Bytes
  | .array items closed =>
    match readBytes items with
    | .error f => .error f
    | .ok bs => if closed then .ok bs else .error .malformed
  | .object [] true => .ok []
  | .object ((k, t) :: _) _ =>
    if k.value?.isSome && t.intact then .error .payloadEntries else .error .malformed
  | .object [] false => .error .malformed
  | t => wrongType t .bytes

def readTime (t : Tree) : Except Fault Time :=
  match integer? t with
  | some n =>
    match Time.ofMillis? n with
    | some u => .ok u
    | none => .error (.illegalTime n)
  | none => wrongType t .milliseconds

def readOptionalTime : Tree → Except Fault (Option Time)
  | .null => .ok none
  | t => (readTime t).map some

def readCount (t : Tree) : Except Fault UInt64 :=
  match integer? t with
  | some n => if 0 ≤ n then .ok n.toNat.toUInt64 else .error (.outOfRange n .count)
  | none => wrongType t .count

/-- The fields seen so far. -/
structure Gathered where
  id : Option String := none
  payload : Option Bytes := none
  createAt : Option Time := none
  deliverAt : Option (Option Time) := none
  redeliverAt : Option (Option Time) := none
  deliveries : Option UInt64 := none
  deriving DecidableEq, Repr

namespace Gathered

def has (d : Gathered) : Field → Bool
  | .id => d.id.isSome
  | .payload => d.payload.isSome
  | .createAt => d.createAt.isSome
  | .deliverAt => d.deliverAt.isSome
  | .redeliverAt => d.redeliverAt.isSome
  | .deliveries => d.deliveries.isSome

def read (d : Gathered) (f : Field) (t : Tree) : Except Fault Gathered :=
  match f with
  | .id => (readString t).map fun v => { d with id := some v }
  | .payload => (readPayload t).map fun v => { d with payload := some v }
  | .createAt => (readTime t).map fun v => { d with createAt := some v }
  | .deliverAt => (readOptionalTime t).map fun v => { d with deliverAt := some v }
  | .redeliverAt => (readOptionalTime t).map fun v => { d with redeliverAt := some v }
  | .deliveries => (readCount t).map fun v => { d with deliveries := some v }

/-- A second member of a known key is refused before its value is looked at. -/
def readMember (d : Gathered) (key : Text) (t : Tree) : Except Fault Gathered :=
  match key.value? with
  | none => .error .malformed
  | some k =>
    match Field.ofKey? k with
    | none => if t.intact then .ok d else .error .malformed
    | some f => if d.has f then .error (.duplicate f) else d.read f t

def readMembers (d : Gathered) : List (Text × Tree) → Except Fault Gathered
  | [] => .ok d
  | (k, t) :: ms =>
    match d.readMember k t with
    | .error f => .error f
    | .ok d => d.readMembers ms

def toMessage (d : Gathered) : Except Fault Message :=
  match d.id, d.payload, d.createAt with
  | none, _, _ => .error (.missing .id)
  | _, none, _ => .error (.missing .payload)
  | _, _, none => .error (.missing .createAt)
  | some id, some payload, some createAt =>
    .ok { id, payload, createAt, deliverAt := d.deliverAt.getD none,
          redeliverAt := d.redeliverAt.getD none, deliveries := d.deliveries.getD 0 }

end Gathered

/-- Reads the elements of an array row against the fields in order. The number of elements
matters once they are used up. -/
def readElements (d : Gathered) (given : Nat) : List Field → List Tree → Except Fault Gathered
  | _, [] => if given < 3 then .error (.tooFew given) else .ok d
  | [], _ :: _ => .error .malformed
  | f :: fs, t :: ts =>
    match d.read f t with
    | .error e => .error e
    | .ok d => readElements d (given + 1) fs ts

def readMessage : Tree → Except Fault Message
  | .object ms closed =>
    match Gathered.readMembers {} ms with
    | .error f => .error f
    | .ok d => if closed then d.toMessage else .error .malformed
  | .array items closed =>
    match readElements {} 0 Field.all items with
    | .error (.tooFew n) => .error (if closed then .tooFew n else .malformed)
    | .error f => .error f
    | .ok d => if closed then d.toMessage else .error .malformed
  | t => wrongType t .message

def decode (row : Bytes) : Except Fault Message :=
  let (t, rest) := Json.read row
  match readMessage t with
  | .error f => .error f
  | .ok m => if Json.endsClean rest then .ok m else .error .malformed

end Decode

section Wording

def Unexpected.text : Unexpected → String
  | .null => "null"
  | .bool b => "boolean `" ++ toString b ++ "`"
  | .integer n => "integer `" ++ toString n ++ "`"
  | .fraction x => "floating point `" ++ Real.compactText x ++ "`"
  | .string s => "string " ++ DelayedQueue.Text.quoted s
  | .sequence => "sequence"
  | .map => "map"

def Expected.text : Expected → String
  | .string => "a string"
  | .bytes => "a byte array"
  | .byte => "u8"
  | .milliseconds => "a unix timestamp in milliseconds"
  | .count => "u64"
  | .message => "struct Message"

def Fault.message : Fault → String
  | .malformed => "<json syntax>"
  | .missing f => "missing field `" ++ f.key ++ "`"
  | .duplicate f => "duplicate field `" ++ f.key ++ "`"
  | .wrongType u e => "invalid type: " ++ u.text ++ ", expected " ++ e.text
  | .outOfRange n e => "invalid value: integer `" ++ toString n ++ "`, expected " ++ e.text
  | .payloadEntries => "payload map must be empty"
  | .illegalTime n => "value is not a legal timestamp: " ++ toString n
  | .tooFew n => "invalid length " ++ toString n ++ ", expected struct Message with 6 elements"

end Wording

end Row

end DelayedQueue
