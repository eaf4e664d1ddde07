import DelayedQueue.Log.Filter
import DelayedQueue.Text.Quoted

/-! # Printing the log

A process prints its log from the moment it sets up logging, once and for all, unless
someone else has taken over its log before. The environment says what is printed and how.
-/

namespace DelayedQueue.Log

structure Format where
  filter : Filter
  /-- One JSON object per event instead of a line of text. -/
  json : Bool
  deriving DecidableEq, Repr

def environmentName (env : Environment) : String :=
  ((env.get? "DQ_ENV").or (env.get? "APP_ENV")).getD "development"

/-- The level that an environment starts with. -/
def environmentLevel (name : String) : Level :=
  match name with
  | "production" => .info
  | "test" => .warn
  | _ => .debug

def wantsJson (env : Environment) : Bool :=
  (env.get? "DQ_LOG_FORMAT").any fun f => f.toLower == "json"

/-- A filter that cannot be read is none. -/
def Format.ofEnvironment (env : Environment) : Except Panic Format :=
  let byLevel := Filter.ofLevel (environmentLevel (environmentName env))
  match (env.get? "RUST_LOG").map Filter.read with
  | some (.ok filter) => .ok ⟨filter, wantsJson env⟩
  | some (.error (.panic p)) => .error p
  | some (.error .malformed) | none => .ok ⟨byLevel, wantsJson env⟩

def initialized (env : Environment) : Event where
  level := .info
  target := loggingTarget
  message := "Structured logging initialized"
  fields := [("environment", .bare (environmentName env)), ("json", .flag (wantsJson env))]

def valueText : Value → String
  | .bare s => s
  | .text s => Text.quoted s
  | .number n => toString n
  | .flag b => toString b
  | .unset => ""

/-- The text as `LEVEL target: message field=value ...`. -/
def Event.text (e : Event) : String :=
  e.level.upperName ++ " " ++ e.target ++ ": " ++ e.message ++
    String.join (e.recorded.map fun f => " " ++ f.1 ++ "=" ++ valueText f.2)

/-- With one blank between words, and none at the ends. -/
def spaced (words : List (List Char)) : String :=
  " ".intercalate (words.map String.ofList)

/-- What is printed. Line breaks in values break the line. The first word of a line is
taken for its time, which is left out, and the text of an event comes without one. -/
def Event.lines (e : Event) : List String :=
  match (e.text.splitOn "\n").map fun line => Text.words line.toList with
  | [] => []
  | line :: lines =>
    spaced line :: (lines.filter fun words => !words.isEmpty).map fun words => spaced (words.drop 1)

/-- What a process does with its log. -/
inductive Call where
  | setUp
  /-- Someone else takes the log and prints nothing. -/
  | takeOver
  | report (es : List Event)
  deriving DecidableEq, Repr

inductive Sink where
  | nobody
  | other
  | printer (f : Format)
  deriving DecidableEq, Repr

def Sink.print : Sink → List Event → List Event
  | .printer f, es => es.filter f.filter.passes
  | _, _ => []

/-- The events that are printed in the course of these calls. Setting up reads the filter
also where someone else has the log. -/
def printed (env : Environment) : Sink → List Call → Except Panic (List Event)
  | _, [] => .ok []
  | .nobody, .setUp :: calls =>
    match Format.ofEnvironment env with
    | .error p => .error p
    | .ok f => (printed env (.printer f) calls).map (Sink.print (.printer f) [initialized env] ++ ·)
  | .other, .setUp :: calls =>
    match Format.ofEnvironment env with
    | .error p => .error p
    | .ok _ => printed env .other calls
  | .nobody, .takeOver :: calls => printed env .other calls
  | sink, .report es :: calls => (printed env sink calls).map (sink.print es ++ ·)
  | sink, _ :: calls => printed env sink calls

end DelayedQueue.Log
