import DelayedQueue.Toml.Table

/-! # Documents in TOML

Lines of keys with values and of headers. Containers nest less than eighty deep.
-/

namespace DelayedQueue.Toml

def isBareKeyChar (c : Char) : Bool := c.isAlphanum || c == '-' || c == '_'

def simpleKey? (cs : List Char) : Scan String :=
  match lineString? cs with
  | some (s, cs) => some (String.ofList s, cs)
  | none =>
    let bare := cs.takeWhile isBareKeyChar
    if bare.isEmpty then none else some (String.ofList bare, cs.dropWhile isBareKeyChar)

/-- The parts of a dotted key, with the blanks around them. -/
def keyParts : Nat → List Char → Scan (List String)
  | 0, _ => none
  | fuel + 1, cs =>
    match simpleKey? (skipBlanks cs) with
    | none => none
    | some (part, cs) =>
      match skipBlanks cs with
      | '.' :: cs => (keyParts fuel cs).map fun (parts, cs) => (part :: parts, cs)
      | cs => some ([part], cs)

structure Key where
  path : List String
  last : String
  deriving DecidableEq, Repr

def Key.parts (k : Key) : List String := k.path ++ [k.last]

def depthLimit : Nat := 80

def key? (cs : List Char) : Scan Key :=
  match keyParts depthLimit cs with
  | none => none
  | some (parts, cs) =>
    match parts.reverse with
    | [] => none
    | last :: path => if parts.length < depthLimit then some (⟨path.reverse, last⟩, cs) else none

/-- Blanks, line breaks and comments between the elements of an array. -/
def skipFiller (inComment : Bool) : List Char → List Char
  | [] => []
  | '\r' :: '\n' :: cs => skipFiller false cs
  | c :: cs =>
    if c = '\n' then skipFiller false cs
    else if inComment then if isPlain c then skipFiller true cs else c :: cs
    else if c = '#' then skipFiller true cs
    else if isBlank c then skipFiller false cs
    else c :: cs

/- The first number is fuel, the second how many containers are open. -/
mutual

def readValue : Nat → Nat → List Char → Scan Item
  | 0, _, _ => none
  | fuel + 1, depth, cs =>
    match cs with
    | '[' :: cs =>
      if depth + 1 < depthLimit then
        (readElements fuel (depth + 1) (skipFiller false cs)).map fun (items, cs) =>
          (.array items, cs)
      else none
    | '{' :: cs =>
      if depth + 1 < depthLimit then
        match skipBlanks cs with
        | '}' :: cs => some (.inlined [], cs)
        | cs => (readInline fuel (depth + 1) [] cs).map fun (ms, cs) => (.inlined ms, cs)
      else none
    | cs => (scalar? cs).map fun (s, cs) => (.scalar s, cs)

/-- The rest of an array, up to its closing bracket. -/
def readElements : Nat → Nat → List Char → Scan (List Item)
  | 0, _, _ => none
  | fuel + 1, depth, cs =>
    match cs with
    | ']' :: cs => some ([], cs)
    | cs =>
      match readValue fuel depth cs with
      | none => none
      | some (v, cs) =>
        match skipFiller false cs with
        | ',' :: cs =>
          (readElements fuel depth (skipFiller false cs)).map fun (vs, cs) => (v :: vs, cs)
        | ']' :: cs => some ([v], cs)
        | _ => none

/-- The rest of an inline table with these members so far, up to its closing brace. -/
def readInline : Nat → Nat → Members → List Char → Scan Members
  | 0, _, _, _ => none
  | fuel + 1, depth, ms, cs =>
    match key? cs with
    | some (k, '=' :: cs) =>
      match readValue fuel depth (skipBlanks cs) with
      | none => none
      | some (v, cs) =>
        match ms.put k.path k.last v with
        | none => none
        | some ms =>
          match skipBlanks cs with
          | ',' :: cs => readInline fuel depth ms cs
          | '}' :: cs => some (ms, cs)
          | _ => none
    | _ => none

end

/-- Nothing but a comment up to the end of the line. -/
def endLine? (cs : List Char) : Option (List Char) :=
  let cs := match skipBlanks cs with
    | '#' :: cs => cs.dropWhile isPlain
    | cs => cs
  if cs.isEmpty then some [] else lineBreak? cs

/-- All tables, and the header under which the reader stands. -/
structure Document where
  members : Members
  header : List String

/-- Reads one line. A value may take several. -/
def readLine (d : Document) (cs : List Char) : Option (Document × List Char) :=
  match cs with
  | '[' :: '[' :: cs =>
    match key? cs with
    | some (k, ']' :: ']' :: cs) =>
      match d.members.openElement k.path k.last, endLine? cs with
      | some ms, some cs => some (⟨ms, k.parts⟩, cs)
      | _, _ => none
    | _ => none
  | '[' :: cs =>
    match key? cs with
    | some (k, ']' :: cs) =>
      match d.members.openTable k.path k.last, endLine? cs with
      | some ms, some cs => some (⟨ms, k.parts⟩, cs)
      | _, _ => none
    | _ => none
  | cs =>
    match endLine? cs with
    | some cs => some (d, cs)
    | none =>
      match key? cs with
      | some (k, '=' :: cs) =>
        match readValue (2 * cs.length + 2) 0 (skipBlanks cs) with
        | none => none
        | some (v, cs) =>
          match d.members.putBelow d.header k.path k.last v, endLine? cs with
          | some ms, some cs => some ({ d with members := ms }, cs)
          | _, _ => none
      | _ => none

def readLines : Nat → Document → List Char → Option Members
  | 0, _, _ => none
  | fuel + 1, d, cs =>
    match skipBlanks cs with
    | [] => some d.members
    | cs =>
      match readLine d cs with
      | none => none
      | some (d, cs) => readLines fuel d cs

/-- The members of a document, if it is well formed. A byte order mark before it is skipped. -/
def read? (cs : List Char) : Option Members :=
  let cs := match cs with
    | '\uFEFF' :: cs => cs
    | cs => cs
  readLines (cs.length + 1) ⟨[], []⟩ cs

end DelayedQueue.Toml
