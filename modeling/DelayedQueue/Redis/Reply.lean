import DelayedQueue.Text.Decimal
import DelayedQueue.Text.Utf8

/-! # Replies of a server

What a server answers and how it is read. Numbers come as integers or as their decimal
text. An error anywhere in a reply makes it an error.
-/

namespace DelayedQueue.Redis

inductive Reply where
  | integer (n : Int)
  | status (s : String)
  /-- A code, a blank and a text. -/
  | error (line : String)
  | bulk (bs : Bytes)
  | nil
  | array (rs : List Reply)
  deriving Repr

/-- Errors that have a name of their own. -/
inductive ErrorKind where
  | response
  | execAbort
  | busyLoading
  | noScript
  | moved
  | ask
  | tryAgain
  | clusterDown
  | crossSlot
  | masterDown
  | readOnly
  | notBusy
  | noSub
  deriving DecidableEq, Repr

namespace ErrorKind

def ofCode? : String → Option ErrorKind
  | "ERR" => some .response
  | "EXECABORT" => some .execAbort
  | "LOADING" => some .busyLoading
  | "NOSCRIPT" => some .noScript
  | "MOVED" => some .moved
  | "ASK" => some .ask
  | "TRYAGAIN" => some .tryAgain
  | "CLUSTERDOWN" => some .clusterDown
  | "CROSSSLOT" => some .crossSlot
  | "MASTERDOWN" => some .masterDown
  | "READONLY" => some .readOnly
  | "NOTBUSY" => some .notBusy
  | "NOSUB" => some .noSub
  | _ => none

def name : ErrorKind → String
  | .response => "ResponseError"
  | .execAbort => "ExecAbortError"
  | .busyLoading => "BusyLoadingError"
  | .noScript => "NoScriptError"
  | .moved => "Moved"
  | .ask => "Ask"
  | .tryAgain => "TryAgain"
  | .clusterDown => "ClusterDown"
  | .crossSlot => "CrossSlot"
  | .masterDown => "MasterDown"
  | .readOnly => "ReadOnly"
  | .notBusy => "NotBusy"
  | .noSub => "NoSub"

end ErrorKind

inductive Fault where
  | server (kind : ErrorKind) (detail : Option String)
  /-- A server error with a code that has no name here. -/
  | extension (code : String) (detail : Option String)
  /-- A reply that cannot be read as what was asked for. -/
  | wrongType
  | illFormedText
  /-- A transaction that was answered by something else than its results. -/
  | noTransaction
  deriving DecidableEq, Repr

namespace Fault

def ofLine (line : String) : Fault :=
  let code := line.toList.takeWhile (· != ' ')
  let detail := match line.toList.dropWhile (· != ' ') with
    | [] => none
    | _ :: cs => some (String.ofList cs)
  match ErrorKind.ofCode? (String.ofList code) with
  | some kind => .server kind detail
  | none => .extension (String.ofList code) detail

def message : Fault → String
  | .server kind (some detail) =>
    "An error was signalled by the server - " ++ kind.name ++ ": " ++ detail
  | .server kind none => "An error was signalled by the server- " ++ kind.name
  | .extension code detail =>
    code ++ ": " ++ detail.getD "Unknown extension error encountered"
  | .wrongType => "Response was of incompatible type"
  | .illFormedText => "Invalid UTF-8- TypeError"
  | .noTransaction => "Invalid response when parsing multi response- ResponseError"

def isNoScript : Fault → Bool
  | .server .noScript _ => true
  | _ => false

end Fault

namespace Reply

mutual

/-- The first error in a reply. -/
def fault? : Reply → Option Fault
  | .error line => some (.ofLine line)
  | .array rs => firstFault? rs
  | _ => none

def firstFault? : List Reply → Option Fault
  | [] => none
  | r :: rs => (fault? r).or (firstFault? rs)

end

/-- The reply itself, if there is no error in it. -/
def checked (r : Reply) : Except Fault Reply :=
  match r.fault? with
  | none => .ok r
  | some f => .error f

/-- A text that a reply stands for. -/
def text? : Reply → Except Fault (List Char)
  | .status "OK" => .error .wrongType
  | .status s => .ok s.toList
  | .bulk bs =>
    match Utf8.decode? bs with
    | some cs => .ok cs
    | none => .error .illFormedText
  | _ => .error .wrongType

/-- A number in 64 bits without a sign. Negative integers wrap around. -/
def toWord (r : Reply) : Except Fault UInt64 :=
  match r with
  | .integer n => .ok (UInt64.ofInt n)
  | r =>
    match r.text? with
    | .error f => .error f
    | .ok cs =>
      match Decimal.parseUnsigned (UInt64.size - 1) cs with
      | .ok n => .ok (UInt64.ofNat n)
      | .error _ => .error .wrongType

/-- A number in 64 bits with a sign. -/
def toInteger (r : Reply) : Except Fault Int :=
  match r with
  | .integer n => .ok n
  | r =>
    match r.text? with
    | .error f => .error f
    | .ok cs =>
      match Decimal.parseSigned (UInt64.size / 2 - 1) cs with
      | .ok n => .ok n
      | .error _ => .error .wrongType

/-- A number in 8 bits. -/
def toByte (r : Reply) : Except Fault UInt8 :=
  match r with
  | .integer n => .ok (UInt8.ofInt n)
  | r =>
    match r.text? with
    | .error f => .error f
    | .ok cs =>
      match Decimal.parseUnsigned 255 cs with
      | .ok n => .ok (UInt8.ofNat n)
      | .error _ => .error .wrongType

/-- Bytes, given as such or one by one. -/
def toBytes : Reply → Except Fault Bytes
  | .bulk bs => .ok bs
  | .array rs => rs.mapM toByte
  | .nil => .ok []
  | _ => .error .wrongType

/-- A list of byte strings. One alone is a list of one. -/
def toByteStrings : Reply → Except Fault (List Bytes)
  | .bulk bs => .ok [bs]
  | .array rs => rs.mapM toBytes
  | .nil => .ok []
  | _ => .error .wrongType

/-- A text; of the statuses even the plain one counts, and an integer is its digits. -/
def toText : Reply → Except Fault String
  | .status s => .ok s
  | .integer n => .ok (toString n)
  | r => r.text?.map String.ofList

end Reply

end DelayedQueue.Redis
