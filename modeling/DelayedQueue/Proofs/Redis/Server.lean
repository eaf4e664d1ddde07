import Mathlib.Logic.Function.Basic
import DelayedQueue.Proofs.Json.Printer
import DelayedQueue.Proofs.Text.Decimal
import DelayedQueue.Proofs.Text.Utf8
import DelayedQueue.Redis.Talk

/-! # A server

What a server does on the commands that are sent outside of scripts: lists, sorted sets and hashes
lie under keys, a transaction is queued and then runs at once. Scores are held as doubles. Commands
and words of which nothing is said here have no reply.
-/

namespace DelayedQueue.Redis

open Std (ExtTreeMap)

section Scores

/-- The bits of the significand of a double. -/
def precision : Nat := 53

/-- The double next to a whole number; of two equally near ones the one whose last bit is zero. -/
def nearestDouble (n : Int) : Int :=
  let unit := 2 ^ (n.natAbs.log2 + 1 - precision)
  let q := n.natAbs / unit
  let r := n.natAbs % unit
  let up := unit < 2 * r ∨ (unit = 2 * r ∧ q % 2 = 1)
  n.sign * ((if up then q + 1 else q) * unit : Nat)

/-- A score that is sent, as it is held. Scores are whole numbers of 64 bits. -/
def score? (word : Bytes) : Option Int :=
  match Utf8.decode? word with
  | none => none
  | some cs =>
    match Decimal.parseSigned (UInt64.size / 2 - 1) cs with
    | .ok n => some (nearestDouble n)
    | .error _ => none

theorem nearestDouble_eq {n : Int} (h : n.natAbs < 2 ^ precision) : nearestDouble n = n := by
  have hlog : n.natAbs.log2 + 1 - precision = 0 := by
    by_cases hz : n.natAbs = 0
    · rw [hz]; rfl
    · exact Nat.sub_eq_zero_of_le ((Nat.log2_lt hz).mpr h)
  simp only [nearestDouble, hlog, pow_zero, Nat.mod_one, Nat.div_one, Nat.mul_one, Nat.mul_zero]
  rw [if_neg (by omega)]
  exact Int.sign_mul_natAbs n

example : nearestDouble (2 ^ 53 + 1) = 2 ^ 53 := by decide +kernel

theorem integer_eq_encodeChars (n : Int) :
    Json.integer n = Utf8.encodeChars (Decimal.signed n) := by
  have hdigits : Utf8.encodeChars (Nat.toDigits 10 n.natAbs) = Json.digits n.natAbs := by
    unfold Utf8.encodeChars Json.digits
    rw [List.map_eq_flatMap]
    refine List.flatMap_congr fun c hc => Utf8.encodeChar_one ?_
    have h := Nat.isDigit_of_mem_toDigits (by decide) (by decide) hc
    simp only [Char.isDigit, Bool.and_eq_true, decide_eq_true_eq] at h
    exact Nat.lt_of_le_of_lt h.2 (by decide)
  unfold Json.integer Decimal.signed
  split
  · simp only [Utf8.encodeChars, List.flatMap_cons] at hdigits ⊢
    rw [hdigits]
    rfl
  · exact hdigits.symm

/-- A whole number of less bits than a significand has arrives as it was sent. -/
theorem score?_integer {n : Int} (h : n.natAbs < 2 ^ precision) :
    score? (Json.integer n) = some n := by
  unfold precision at h
  have hn : Decimal.parseSigned (UInt64.size / 2 - 1) (Decimal.signed n) = .ok n := by
    have hsize : ((UInt64.size / 2 - 1 : Nat) : Int) = 2 ^ 63 - 1 := by decide
    exact Decimal.parseSigned_signed (by omega) (by omega)
  simp only [score?, integer_eq_encodeChars, Utf8.decode?_encodeChars, hn, nearestDouble_eq h]

theorem natAbs_millis_lt (t : Time) : t.millis.natAbs < 2 ^ precision := by
  have hl := t.earliest_le
  have hh := t.le_latest
  simp only [earliestNanos, latestNanos] at hl hh
  simp only [Time.millis, precision]
  omega

end Scores

/-- What lies under a key. A value that has become empty is gone. -/
inductive Value where
  | list (xs : List Bytes)
  | sortedSet (scores : ExtTreeMap Bytes Int)
  | hash (fields : ExtTreeMap Bytes Bytes)

namespace Value

def ofList (xs : List Bytes) : Option Value := if xs.isEmpty then none else some (.list xs)

def ofScores (m : ExtTreeMap Bytes Int) : Option Value :=
  if m.isEmpty then none else some (.sortedSet m)

def ofFields (m : ExtTreeMap Bytes Bytes) : Option Value :=
  if m.isEmpty then none else some (.hash m)

def list? : Option Value → Option (List Bytes)
  | none => some []
  | some (.list xs) => some xs
  | _ => none

def scores? : Option Value → Option (ExtTreeMap Bytes Int)
  | none => some ∅
  | some (.sortedSet m) => some m
  | _ => none

def fields? : Option Value → Option (ExtTreeMap Bytes Bytes)
  | none => some ∅
  | some (.hash m) => some m
  | _ => none

@[simp] theorem list?_ofList (xs : List Bytes) : list? (ofList xs) = some xs := by
  unfold ofList
  split
  · next h => rw [List.isEmpty_iff.mp h]; rfl
  · rfl

@[simp] theorem scores?_ofScores (m : ExtTreeMap Bytes Int) : scores? (ofScores m) = some m := by
  unfold ofScores
  split
  · next h => rw [ExtTreeMap.isEmpty_iff.mp h]; rfl
  · rfl

@[simp] theorem fields?_ofFields (m : ExtTreeMap Bytes Bytes) : fields? (ofFields m) = some m := by
  unfold ofFields
  split
  · next h => rw [ExtTreeMap.isEmpty_iff.mp h]; rfl
  · rfl

@[simp] theorem ofList_nil : ofList [] = none := rfl
@[simp] theorem ofScores_empty : ofScores ∅ = none := by simp [ofScores]
@[simp] theorem ofFields_empty : ofFields ∅ = none := by simp [ofFields]

end Value

inductive Verb where
  | llen
  | zcard
  | hlen
  | rpush
  | zadd
  | hset
  | del
  | multi
  | exec
  deriving DecidableEq, Repr

namespace Verb

def name : Verb → String
  | .llen => "LLEN"
  | .zcard => "ZCARD"
  | .hlen => "HLEN"
  | .rpush => "RPUSH"
  | .zadd => "ZADD"
  | .hset => "HSET"
  | .del => "DEL"
  | .multi => "MULTI"
  | .exec => "EXEC"

def all : List Verb := [.llen, .zcard, .hlen, .rpush, .zadd, .hset, .del, .multi, .exec]

def ofBytes? (bs : Bytes) : Option Verb := all.find? fun v => Utf8.encode v.name == bs

theorem ofBytes?_name (v : Verb) : ofBytes? (Utf8.encode v.name) = some v := by
  cases v <;> decide +kernel

end Verb

abbrev Keyspace := Bytes → Option Value

namespace Keyspace

def wrongKind : Reply := .error "WRONGTYPE Operation against a key holding the wrong kind of value"

/-- How much there is under a key. -/
def count {α : Type} (ks : Keyspace) (key : Bytes) (read : Option Value → Option α)
    (size : α → Nat) : Reply × Keyspace :=
  match read (ks key) with
  | none => (wrongKind, ks)
  | some a => (.integer (size a), ks)

/-- Puts what `f` makes of the value under a key, and replies with the number that `f` gives. -/
def change {α : Type} (ks : Keyspace) (key : Bytes) (read : Option Value → Option α)
    (f : α → Nat × Option Value) : Reply × Keyspace :=
  match read (ks key) with
  | none => (wrongKind, ks)
  | some a => (.integer (f a).1, Function.update ks key (f a).2)

def delete (ks : Keyspace) (keys : List Bytes) : Reply × Keyspace :=
  (.integer (keys.dedup.filter fun key => (ks key).isSome).length,
    fun key => if key ∈ keys then none else ks key)

/-- Words two by two. -/
def pairs? : List Bytes → Option (List (Bytes × Bytes))
  | [] => some []
  | [_] => none
  | a :: b :: ws => (pairs? ws).map ((a, b) :: ·)

def insertAll {β : Type} (m : ExtTreeMap Bytes β) (es : List (Bytes × β)) : ExtTreeMap Bytes β :=
  es.foldl (fun m e => m.insert e.1 e.2) m

/-- A score and the member that is to have it. -/
def scored? (e : Bytes × Bytes) : Option (Bytes × Int) := (score? e.1).map fun n => (e.2, n)

/-- Runs a command on the values. Those that add entries reply with how many are new. -/
def execute (ks : Keyspace) : Verb → List Bytes → Option (Reply × Keyspace)
  | .llen, [key] => some (ks.count key Value.list? List.length)
  | .zcard, [key] => some (ks.count key Value.scores? ExtTreeMap.size)
  | .hlen, [key] => some (ks.count key Value.fields? ExtTreeMap.size)
  | .rpush, key :: x :: xs =>
    some (ks.change key Value.list? fun ys =>
      ((ys ++ x :: xs).length, Value.ofList (ys ++ x :: xs)))
  | .zadd, key :: w :: ws =>
    match (pairs? (w :: ws)).bind (List.mapM scored?) with
    | none => none
    | some es =>
      some (ks.change key Value.scores? fun m =>
        ((insertAll m es).size - m.size, Value.ofScores (insertAll m es)))
  | .hset, key :: w :: ws =>
    match pairs? (w :: ws) with
    | none => none
    | some es =>
      some (ks.change key Value.fields? fun m =>
        ((insertAll m es).size - m.size, Value.ofFields (insertAll m es)))
  | .del, key :: keys => some (ks.delete (key :: keys))
  | _, _ => none

/-- Runs commands one after the other, whatever they reply. -/
def executeAll (ks : Keyspace) : List (Verb × List Bytes) → Option (List Reply × Keyspace)
  | [] => some ([], ks)
  | (v, args) :: cs =>
    match ks.execute v args with
    | none => none
    | some (r, ks) => (executeAll ks cs).map fun (rs, ks) => (r :: rs, ks)

end Keyspace

/-- A server and the connection to it. -/
structure Server where
  keys : Keyspace
  /-- What has been queued of the transaction that is open, if one is. -/
  queued : Option (List (Verb × List Bytes))

namespace Server

def word? : Word → Option Bytes
  | .bytes bs => some bs
  | .digest _ | .source _ => none

def parse? (c : Command) : Option (Verb × List Bytes) :=
  match c.mapM word? with
  | some (name :: args) => (Verb.ofBytes? name).map (·, args)
  | _ => none

def receive (s : Server) (c : Command) : Option (Reply × Server) :=
  match parse? c with
  | none => none
  | some (.multi, []) =>
    match s.queued with
    | none => some (.status "OK", { s with queued := some [] })
    | some _ => some (.error "ERR MULTI calls can not be nested", s)
  | some (.exec, []) =>
    match s.queued with
    | none => some (.error "ERR EXEC without MULTI", s)
    | some cs => (s.keys.executeAll cs).map fun (rs, ks) => (.array rs, ⟨ks, none⟩)
  | some (v, args) =>
    match s.queued with
    | none => (s.keys.execute v args).map fun (r, ks) => (r, { s with keys := ks })
    | some cs => some (.status "QUEUED", { s with queued := some (cs ++ [(v, args)]) })

def receiveAll (s : Server) : List Command → Option (List Reply × Server)
  | [] => some ([], s)
  | c :: cs =>
    match s.receive c with
    | none => none
    | some (r, s) => (receiveAll s cs).map fun (rs, s) => (r :: rs, s)

end Server

/-- The talk as the server goes along with it. -/
def Talk.serve {α : Type} : Talk α → Server → Option (α × Server)
  | .answer a, s => some (a, s)
  | .ask cs next, s =>
    match s.receiveAll cs with
    | none => none
    | some (rs, s) => (next rs).serve s

end DelayedQueue.Redis
