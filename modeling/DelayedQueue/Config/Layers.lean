import DelayedQueue.Config.Environment
import DelayedQueue.Config.Path
import DelayedQueue.Config.Settings
import DelayedQueue.Json.Tree
import DelayedQueue.Toml.Document

/-! # Settings from layers

A file gives values by key, variables that begin with `DQ__` give others over them, and
what neither names keeps its default. Keys are compared in lower case. Only the values
of known keys have to fit.
-/

namespace DelayedQueue

/-- Values by key, lower case. -/
abbrev Layer := Config.Members

namespace Layer

/-- Lower case for ASCII and for the one other character that becomes an ASCII letter. -/
def lowerChar (c : Char) : Char := if c = '\u212A' then 'k' else c.toLower

def lowerKey (s : String) : String := String.ofList (s.toList.map lowerChar)

/-- Puts a value where its key leads to. A key that spells no path is one as a whole. -/
def put (l : Layer) (key : String) (v : Config.Value) : Except Panic Layer :=
  match Config.Path.parse? key with
  | none => .ok (Config.Members.put l key (.merge (l.lookup key) v))
  | some p => (Config.Path.fill v p.steps (l.lookup p.head)).map (Config.Members.put l p.head)

def putAll (l : Layer) (entries : List (String × Config.Value)) : Except Panic Layer :=
  entries.foldlM (fun l e => l.put e.1 e.2) l

def get? (l : Layer) (key : String) : Option Config.Value := l.lookup key

end Layer

namespace Config

section Files

inductive FileFormat where
  | toml
  | json
  deriving DecidableEq, Repr

mutual

def valueOfToml : Toml.Item → Value
  | .scalar (.bool b) => .bool b
  | .scalar (.integer n) => .integer n
  | .scalar (.real x) => .real x
  | .scalar (.text s) => .text s
  | .array items => .sequence (valuesOfToml items)
  | .inlined ms => .map (membersOfToml ms)
  | .table _ ms => .map (membersOfToml ms)
  | .tables closed last => .sequence (mapsOfToml closed ++ [.map (membersOfToml last)])

def valuesOfToml : List Toml.Item → List Value
  | [] => []
  | t :: ts => valueOfToml t :: valuesOfToml ts

def membersOfToml : List (String × Toml.Item) → List (String × Value)
  | [] => []
  | (k, t) :: ms => (Layer.lowerKey k, valueOfToml t) :: membersOfToml ms

def mapsOfToml : List (List (String × Toml.Item)) → List Value
  | [] => []
  | ms :: rest => .map (membersOfToml ms) :: mapsOfToml rest

end

/-- An integer past 63 bits is taken for a fraction. -/
def valueOfNumeral (n : Json.Numeral) : Option Value :=
  n.read?.map fun
    | .unsigned k => if k ≤ Value.signedLimit then .integer k else .real (Float.ofNat k)
    | .negative k => .integer k
    | .fraction x => .real x

mutual

/-- The value of a tree that can be read, with at most `depth` containers around anything. -/
def valueOfJson (depth : Nat) : Json.Tree → Option Value
  | .null => some .null
  | .bool b => some (.bool b)
  | .number n => valueOfNumeral n
  | .string t => t.value?.map .text
  | .array ts closed =>
    if closed && depth != 0 then (valuesOfJson (depth - 1) ts).map .sequence else none
  | .object ms closed =>
    if closed && depth != 0 then (membersOfJson (depth - 1) ms).map .map else none
  | .broken => none

def valuesOfJson (depth : Nat) : List Json.Tree → Option (List Value)
  | [] => some []
  | t :: ts =>
    match valueOfJson depth t, valuesOfJson depth ts with
    | some v, some vs => some (v :: vs)
    | _, _ => none

/-- Of two values under one key the later counts. -/
def membersOfJson (depth : Nat) : List (Json.Text × Json.Tree) → Option (List (String × Value))
  | [] => some []
  | (k, t) :: ms =>
    match k.value?, valueOfJson depth t, membersOfJson depth ms with
    | some k, some v, some rest =>
      let k := Layer.lowerKey k
      some (if (rest.lookup k).isSome then rest else (k, v) :: rest)
    | _, _, _ => none

end

def jsonDepthLimit : Nat := 127

inductive LoadFault where
  /-- The file cannot be read at all. -/
  | unreadable
  /-- The file holds a value that is not a map. -/
  | root (v : Value)
  /-- A value that its field does not take. -/
  | field (key reason : String)
  | panic (p : Panic)

def readJson (cs : List Char) : Except LoadFault (List (String × Value)) :=
  let (t, rest) := Json.read (Utf8.encodeChars cs)
  match valueOfJson jsonDepthLimit t, Json.endsClean rest with
  | some (.map ms), true => .ok ms
  | some v, true => .error (.root v)
  | _, _ => .error .unreadable

def readToml (cs : List Char) : Except LoadFault (List (String × Value)) :=
  match Toml.read? cs with
  | some members => .ok (membersOfToml members)
  | none => .error .unreadable

/-- The values of a file with this text by their keys. -/
def readFile (format : FileFormat) (text : String) : Except LoadFault (List (String × Value)) :=
  match format with
  | .toml => readToml text.toList
  | .json => readJson text.toList

end Files

section Variables

/-- What a variable's name in lower case begins with, if it is for this layer. -/
def variablePrefix : List Char := ['d', 'q', '_', '_']

def variableEntry (v : String × String) : Option (String × Value) :=
  let name := (Layer.lowerKey v.1).toList
  if variablePrefix.isPrefixOf name then
    some (String.ofList (name.drop 4), .ofVariable v.2)
  else none

end Variables

end Config

namespace Settings

open Config (Value LoadFault)

/-- Reads the value for `key`, if there is one, and keeps `old` otherwise. -/
def field {α : Type} (l : Layer) (key : String) (convert : Value → Except String α) (old : α) :
    Except LoadFault α :=
  match l.get? key with
  | none => .ok old
  | some v =>
    match convert v with
    | .ok a => .ok a
    | .error reason => .error (.field key reason)

def text (v : Value) : Except String String := v.toText.mapError Value.Mismatch.message
def word (v : Value) : Except String UInt64 := v.toWord.mapError Value.Mismatch.message

/-- Null stands for no value. -/
def optional {α : Type} (convert : Value → Except String α) : Value → Except String (Option α)
  | .null => .ok none
  | v => (convert v).map some

def ofLayer (l : Layer) : Except LoadFault Settings := do
  let d := default
  let name ← field l "name" text d.name
  let retryIntervalMs ← field l "retry_interval_ms" word d.retryIntervalMs
  let retryTimes ← field l "retry_times" Value.toHalfWord d.retryTimes
  let workerCount ← field l "worker_count" word d.workerCount
  let pollIntervalMs ← field l "poll_interval_ms" word d.pollIntervalMs
  let daemonIntervalMs ← field l "daemon_interval_ms" word d.daemonIntervalMs
  let consumeTimeoutMs ← field l "consume_timeout_ms" word d.consumeTimeoutMs
  let promoteBatchSize ← field l "promote_batch_size" word d.promoteBatchSize
  let rateLimitIntervalMs ←
    field l "rate_limit_interval_ms" (optional word) d.rateLimitIntervalMs
  let rateLimitBurst ← field l "rate_limit_burst" (optional Value.toHalfWord) d.rateLimitBurst
  return { name, retryIntervalMs, retryTimes, workerCount, pollIntervalMs, daemonIntervalMs,
           consumeTimeoutMs, promoteBatchSize, rateLimitIntervalMs, rateLimitBurst }

/-- The entries of a file, if there is one, and those of the variables over them. -/
def layer (entries : List (String × Value)) (env : Environment) : Except LoadFault Layer :=
  match Layer.putAll [] (entries ++ env.filterMap Config.variableEntry) with
  | .ok l => .ok l
  | .error p => .error (.panic p)

def load (file : Option (Config.FileFormat × String)) (env : Environment) :
    Except LoadFault Settings := do
  let entries ← match file with
    | none => .ok []
    | some (format, text) => Config.readFile format text
  ofLayer (← layer entries env)

end Settings

/-- Nothing is said about why a file cannot be read. -/
def Config.LoadFault.message? : Config.LoadFault → Option String
  | .unreadable => none
  | .panic p => some p.message
  | .root v => some ("invalid type: " ++ v.describe ++ ", expected a map")
  | .field key reason => some (reason ++ " for key `" ++ key ++ "`")

end DelayedQueue
