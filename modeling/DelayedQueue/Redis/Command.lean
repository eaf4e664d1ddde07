import DelayedQueue.Json.Printer
import DelayedQueue.Keys
import DelayedQueue.Message.Row
import DelayedQueue.Store.Space

/-! # Commands to a server

The words of each command that a queue sends. Steps that touch several structures at
once are scripts, which the server knows by the digest of their text.
-/

namespace DelayedQueue.Redis

inductive Script where
  | takeOne
  | commit
  | reschedule
  | promoteDue
  deriving DecidableEq, Repr

inductive Word where
  | bytes (bs : Bytes)
  | digest (s : Script)
  | source (s : Script)
  deriving DecidableEq, Repr

abbrev Command := List Word

namespace Command

def text (s : String) : Word := .bytes (Utf8.encode s)
def number (n : Int) : Word := .bytes (Json.integer n)

def runScript (s : Script) (keys args : List Word) : Command :=
  [text "EVALSHA", .digest s, number keys.length] ++ keys ++ args

def loadScript (s : Script) : Command := [text "SCRIPT", text "LOAD", .source s]

/-- Milliseconds of a duration in 63 bits. -/
def millis (d : Duration) : Int := min (d.millis : Int) Score.highest

def takeOne (k : Keys) (retry : Duration) (maxDeliveries : UInt64) (now : Time) : Command :=
  runScript .takeOne [text k.ready, text k.retry, text k.data]
    [number now.millis, number (millis retry), number maxDeliveries.toNat]

def commit (k : Keys) (id : String) : Command :=
  runScript .commit [text k.retry, text k.data] [text id]

def reschedule (k : Keys) (id : String) (t : Time) : Command :=
  runScript .reschedule [text k.retry, text k.data, text k.ready] [text id, number t.millis]

def promoteDue (k : Keys) (now : Time) (limit : Nat) : Command :=
  runScript .promoteDue [text k.retry, text k.ready] [number now.millis, number limit]

def storeRow (k : Keys) (m : Message) : Command :=
  [text "HSET", text k.data, text m.id, .bytes (Row.encode m)]

def schedule (k : Keys) (id : String) (t : Time) : Command :=
  [text "ZADD", text k.retry, number t.millis, text id]

def enqueue (k : Keys) (id : String) : Command := [text "RPUSH", text k.ready, text id]

/-- Where a new message goes: among the ready ones unless it is due later. -/
def place (k : Keys) (m : Message) (now : Time) : Command :=
  match m.deliverAt with
  | some t => if m.isImmediate now then enqueue k m.id else schedule k m.id t
  | none => enqueue k m.id

/-- A transaction. -/
def produce (k : Keys) (m : Message) (now : Time) : List Command :=
  [[text "MULTI"], storeRow k m, place k m now, [text "EXEC"]]

def stats (k : Keys) : List Command :=
  [[text "LLEN", text k.ready], [text "ZCARD", text k.retry], [text "HLEN", text k.data]]

def purge (k : Keys) : Command := text "DEL" :: k.all.map text

def ping : Command := [text "PING"]

end Command

end DelayedQueue.Redis
