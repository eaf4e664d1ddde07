import DelayedQueue.Log.Event
import DelayedQueue.Log.Pattern
import DelayedQueue.Panic
import DelayedQueue.Text.Decimal
import DelayedQueue.Text.Letters
import DelayedQueue.Text.Real

/-! # Directives of a filter

A directive is a level, or `target[span{field=value}]=level`, where all but one of the
parts can be missing. It is read one character at a time and taken apart by their places.
The characters are those of the text without the white space at its ends; their places
serve to cut the whole text. So white space in front shifts all parts, and a part may
begin or end inside a character.
-/

namespace DelayedQueue.Log

structure Directive where
  /-- What the target of an event has to begin with. -/
  target : String := ""
  /-- Nothing passes if there is none. -/
  least : Option Level := some .trace
  /-- The span in which an event has to happen. -/
  span : Option String := none
  /-- The field that an event has to have. -/
  field : Option String := none
  /-- What the field has to match. -/
  value : Option String := none
  deriving DecidableEq, Repr

namespace Directive

inductive Fault where
  | malformed
  | panic (p : Panic)
  deriving DecidableEq, Repr

/-- A level by name in any case or by number; `off` and 0 let nothing pass. -/
def levelOf? (cs : List Char) : Option (Option Level) :=
  match Decimal.parseUnsigned 5 cs with
  | .ok 0 => some none
  | .ok 1 => some (some .error)
  | .ok 2 => some (some .warn)
  | .ok 3 => some (some .info)
  | .ok 4 => some (some .debug)
  | .ok _ => some (some .trace)
  | .error _ =>
    match (String.ofList cs).toLower with
    | "off" => some none
    | "error" => some (some .error)
    | "warn" => some (some .warn)
    | "info" => some (some .info)
    | "debug" => some (some .debug)
    | "trace" => some (some .trace)
    | _ => none

/-- Whether a target may begin with this character. -/
def beginsTarget (c : Char) : Bool :=
  c == '-' || c == ':' || c == '_' || Text.isAlphanumeric c

/-- What a value is compared with: a flag, a number or a pattern. -/
def isValue (s : List Char) : Bool := (Real.parse? (String.ofList s)).isSome || isPattern s

/-- What the reader is in. The parts that it is in the middle of begin at `first`. -/
inductive Place where
  | start
  /-- A target or a level. -/
  | name
  | span (first : Nat)
  | field (first : Nat)
  | behindField
  | behindSpan
  | level (first : Nat)
  deriving DecidableEq, Repr

/-- The text from `first` on. -/
def tail (text : List Char) (first : Nat) : Except Fault (List Char) :=
  match Text.cut first text with
  | .ok (_, part) => .ok part
  | .error t => .error (.panic (.tornStart t))

/-- The text from `first` to `last`. -/
def part (text : List Char) (first last : Nat) : Except Fault (List Char) := do
  let rest ← tail text first
  match Text.cutFrom first last rest with
  | .ok (part, _) => .ok part
  | .error t => .error (.panic (.tornEnd t))

/-- With a field, and perhaps its value, behind the first `=`. What is behind a second one
is of no account. -/
def addField (d : Directive) (text : List Char) : Except Fault Directive :=
  let name := String.ofList (text.takeWhile (· != '='))
  match text.dropWhile (· != '=') with
  | [] => if text.isEmpty then .error .malformed else .ok { d with field := some name }
  | _ :: rest =>
    let value := rest.takeWhile (· != '=')
    if isValue value then
      .ok { d with field := some name, value := some (String.ofList value) }
    else .error .malformed

/-- One character of the directive, at place `i`. -/
def step (text : List Char) (i : Nat) (c : Char) (d : Directive) :
    Place → Except Fault (Place × Directive)
  | .start =>
    if c = '[' then .ok (.span (i + 1), d)
    else if beginsTarget c then .ok (.name, d)
    else .error .malformed
  | .name => do
    if c = '=' then
      let target ← part text 0 i
      return (.level (i + 1), { d with target := String.ofList target })
    else if c = '[' then
      let target ← part text 0 i
      return (.span (i + 1), { d with target := String.ofList target })
    else return (.name, d)
  | .span first => do
    if c = ']' then
      let span ← part text first i
      return (.behindSpan, { d with span := some (String.ofList span) })
    else if c = '{' then
      let span ← part text first i
      let span := if span.isEmpty then none else some (String.ofList span)
      return (.field (i + 1), { d with span })
    else return (.span first, d)
  | .field first => do
    if c = '}' then
      let d ← d.addField (← part text first i)
      return (.behindField, d)
    else return (.field first, d)
  | .behindField => if c = ']' then .ok (.behindSpan, d) else .error .malformed
  | .behindSpan => if c = '=' then .ok (.level (i + 1), d) else .error .malformed
  | .level first => .ok (.level first, d)

/-- The end of the directive. An empty level is `trace`. -/
def finish (text : List Char) (d : Directive) : Place → Except Fault Directive
  | .name =>
    match levelOf? text with
    | some least => .ok { d with least }
    | none => .ok { d with target := String.ofList text }
  | .behindSpan => .ok d
  | .level first => do
    let level ← tail text first
    if level.isEmpty then return d
    match levelOf? level with
    | some least => return { d with least }
    | none => throw .malformed
  | _ => .error .malformed

def readFrom (text : List Char) (i : Nat) (d : Directive) (p : Place) :
    List Char → Except Fault Directive
  | [] => finish text d p
  | c :: cs =>
    match step text i c d p with
    | .ok (p, d) => readFrom text (i + c.utf8Size) d p cs
    | .error f => .error f

def read (text : List Char) : Except Fault Directive :=
  readFrom text 0 {} .start (Text.trimSpace text)

/-- Whether it can let events pass. No event happens in a span, and no event by itself is
asked for the value of a field. -/
def isDecisive (d : Directive) : Bool := d.span.isNone && d.value.isNone

/-- Whether it is about events like this one. -/
def covers (d : Directive) (e : Event) : Bool :=
  d.isDecisive && d.target.toList.isPrefixOf e.target.toList &&
    d.field.all fun name => e.fieldNames.contains name

/-- Whether `d` decides where both `d` and an earlier `b` could: the longer target does, then
the one with a field, then the field that is last in order, and of equals the later one. -/
def outranks (d b : Directive) : Bool :=
  if d.target.length ≠ b.target.length then b.target.length < d.target.length
  else
    match b.field, d.field with
    | some old, some new => old ≤ new
    | some _, none => false
    | none, _ => true

end Directive

end DelayedQueue.Log
