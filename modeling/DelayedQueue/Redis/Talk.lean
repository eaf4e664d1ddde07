import DelayedQueue.Error
import DelayedQueue.Panic
import DelayedQueue.Redis.Command
import DelayedQueue.Redis.Reply

/-! # Talking to a server

An operation is a talk: commands are sent, their replies decide what is sent next, and
in the end there is an answer.
-/

namespace DelayedQueue.Redis

inductive Talk (α : Type) where
  | answer (a : α)
  /-- Sends commands together and goes on with as many replies. -/
  | ask (cs : List Command) (next : List Reply → Talk α)

namespace Talk

/-- Talks to a server with these replies in store. One that has none left answers nil. -/
def run {α : Type} : Talk α → List Reply → List Command × α
  | .answer a, _ => ([], a)
  | .ask cs next, rs =>
    let mine := rs.take cs.length ++ List.replicate (cs.length - rs.length) .nil
    let (sent, a) := run (next mine) (rs.drop cs.length)
    (cs ++ sent, a)

/-- One command, whose reply must not hold an error. -/
def command {α : Type} (c : Command) (next : Except Fault Reply → Talk α) : Talk α :=
  .ask [c] fun
    | [r] => next r.checked
    | _ => next (.error .wrongType)

/-- Runs a script. If the server does not know it, it is loaded and run once more. -/
def script {α : Type} (s : Script) (call : Command) (next : Except Fault Reply → Talk α) : Talk α :=
  command call fun
    | .error f =>
      if f.isNoScript then
        command (.loadScript s) fun
          | .error f => next (.error f)
          | .ok _ => command call next
      else next (.error f)
    | .ok r => next (.ok r)

end Talk

open Talk

/-- Reads the reply to a take: a tag, and a row or an id with its deliveries. A count that is
no number is taken for zero. -/
def takeOfReply : List Bytes → Except QueueError Take
  | [] => .error (.takeFailed "unexpected take reply tag: ")
  | tag :: parts =>
    if tag = Utf8.encode "empty" then .ok .empty
    else if tag = Utf8.encode "taken" then
      match parts with
      | row :: _ => .ok (.taken row)
      | [] => .error (.takeFailed "take reply missing row")
    else if tag = Utf8.encode "exhausted" then
      match parts with
      | [] => .error (.takeFailed "take reply missing id")
      | id :: counts =>
        let count := match counts with
          | [] => 0
          | c :: _ =>
            match Decimal.parseUnsigned (UInt64.size - 1) (Utf8.decodeLossy c).toList with
            | .ok n => UInt64.ofNat n
            | .error _ => 0
        .ok (.exhausted (Utf8.decodeLossy id) count)
    else .error (.takeFailed ("unexpected take reply tag: " ++ Utf8.decodeLossy tag))

/-- Reads a reply, and wraps what goes wrong. -/
def reading {α : Type} (read : Reply → Except Fault α) (wrap : String → QueueError) :
    Except Fault Reply → Except QueueError α
  | .error f => .error (wrap f.message)
  | .ok r =>
    match read r with
    | .error f => .error (wrap f.message)
    | .ok a => .ok a

def takeOne (k : Keys) (retry : Duration) (maxDeliveries : UInt64) (now : Time) :
    Talk (Except QueueError Take) :=
  script .takeOne (.takeOne k retry maxDeliveries now) fun r =>
    .answer <| match reading Reply.toByteStrings .takeFailed r with
      | .error e => .error e
      | .ok parts => takeOfReply parts

def commit (k : Keys) (id : String) : Talk (Except QueueError Bool) :=
  script .commit (.commit k id) fun r =>
    .answer ((reading Reply.toInteger (.commitFailed id) r).map (0 < ·))

def reschedule (k : Keys) (id : String) (t : Time) : Talk (Except QueueError Bool) :=
  script .reschedule (.reschedule k id t) fun r =>
    .answer ((reading Reply.toInteger (.rescheduleFailed id) r).map (· == 1))

def promoteDue (k : Keys) (now : Time) (limit : Nat) : Talk (Except QueueError UInt64) :=
  script .promoteDue (.promoteDue k now limit) fun r =>
    .answer (reading Reply.toWord .promoteFailed r)

/-- What came of a transaction of `size` commands, by its last reply. The results are
counted off against the commands, so there must not be fewer of them. -/
def transactionResult (size : Nat) : Reply → Except Panic (Except Fault Unit)
  | .nil => .ok (.ok ())
  | .array rs =>
    match Reply.firstFault? rs with
    | some f => .ok (.error f)
    | none => if rs.length < size then .error .difference else .ok (.ok ())
  | _ => .ok (.error .noTransaction)

/-- An error on the way to the last reply is the result. -/
def transactionResults : List Reply → Except Panic (Except Fault Unit)
  | [opened, stored, placed, r] =>
    match Reply.firstFault? [opened, stored, placed] with
    | some f => .ok (.error f)
    | none => transactionResult 2 r
  | _ => .ok (.error .noTransaction)

def produce (k : Keys) (m : Message) (now : Time) : Talk (Except Panic (Except QueueError Unit)) :=
  .ask (Command.produce k m now) fun rs =>
    .answer ((transactionResults rs).map fun r => r.mapError fun f => .produceFailed f.message)

structure Counts where
  ready : UInt64
  pending : UInt64
  stored : UInt64
  deriving DecidableEq, Repr

def countsOfReplies : List Reply → Except Fault Counts
  | [ready, pending, stored] => do
    return ⟨← ready.toWord, ← pending.toWord, ← stored.toWord⟩
  | _ => .error .wrongType

def stats (k : Keys) : Talk (Except QueueError Counts) :=
  let failed (f : Fault) : QueueError := .store ("Redis stats failed: " ++ f.message)
  .ask (Command.stats k) fun rs =>
    .answer <| match Reply.firstFault? rs with
      | some f => .error (failed f)
      | none => (countsOfReplies rs).mapError failed

def purge (k : Keys) : Talk (Except QueueError Unit) :=
  command (.purge k) fun r =>
    .answer (reading (fun _ => .ok ()) (fun reason => .store ("Redis DEL failed: " ++ reason)) r)

/-- Whether the server answers a ping. -/
def healthCheck : Talk (Except QueueError Bool) :=
  command .ping fun r =>
    .answer ((reading Reply.toText (fun reason => .store ("Redis PING failed: " ++ reason)) r).map
      (· == "PONG"))

/-- What this store calls itself. -/
def providerName : String := "redis"

/-- The store with its parts named. -/
def inspect : String := "RedisQueueStore \x7b connection_manager: \"ConnectionManager\" \x7d"

end DelayedQueue.Redis
