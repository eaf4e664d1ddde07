import DelayedQueue.Error
import DelayedQueue.Text.Decimal
import DelayedQueue.Text.Utf8

/-! # Addresses of a server

A URL leads to a server by a host or by the path of a socket. It is read as far as that
takes: scheme, authority, path and query, with the rules for schemes that are not special
to browsers. Credentials have to be texts, and a protocol has to be one that is spoken.
-/

namespace DelayedQueue.Redis

inductive Address where
  | host (name : String) (database : Int)
  | socket (path : Bytes) (database : Int)
  deriving DecidableEq, Repr

namespace Address

inductive Fault where
  /-- No URL, or none of a scheme that leads to a server. -/
  | unreadable
  | noHost
  /-- Encrypted connections are not supported. -/
  | encrypted
  | noPath
  | database
  | username
  | password
  | protocol (name : String)
  deriving DecidableEq, Repr

def Fault.message : Fault → String
  | .unreadable => "Redis URL did not parse- InvalidClientConfig"
  | .noHost => "Missing hostname- InvalidClientConfig"
  | .encrypted => "can't connect with TLS, the feature is not enabled- InvalidClientConfig"
  | .noPath => "Missing path- InvalidClientConfig"
  | .database => "Invalid database number- InvalidClientConfig"
  | .username => "Username is not valid UTF-8 string- InvalidClientConfig"
  | .password => "Password is not valid UTF-8 string- InvalidClientConfig"
  | .protocol name => "Invalid protocol version - InvalidClientConfig: " ++ name

inductive Scheme where
  | plain
  | secure
  | socket
  deriving DecidableEq, Repr

def Scheme.ofName? : String → Option Scheme
  | "redis" => some .plain
  | "rediss" => some .secure
  | "redis+unix" | "unix" => some .socket
  | _ => none

/-- Controls and blanks at the ends and line breaks and tabs anywhere do not count. -/
def clean (cs : List Char) : List Char :=
  let isSpace (c : Char) : Bool := c ≤ ' '
  let cs := (cs.dropWhile isSpace).reverse.dropWhile isSpace
  cs.reverse.filter fun c => c != '\t' && c != '\n' && c != '\r'

def isSchemeChar (c : Char) : Bool := c.isAlphanum || c == '+' || c == '-' || c == '.'

def scheme? (cs : List Char) : Option (Scheme × List Char) :=
  let name := cs.takeWhile isSchemeChar
  match name, cs.dropWhile isSchemeChar with
  | first :: _, ':' :: rest =>
    if first.isAlpha then
      (Scheme.ofName? (String.ofList (name.map Char.toLower))).map fun s => (s, rest)
    else none
  | _, _ => none

def endsAuthority (c : Char) : Bool := c == '/' || c == '?' || c == '#'

/-- What stands before the last `@`, and what follows it. -/
def splitUser (authority : List Char) : Option (List Char) × List Char :=
  let host := (authority.reverse.takeWhile (· != '@')).reverse
  if host.length = authority.length then (none, authority)
  else (some (authority.take (authority.length - host.length - 1)), host)

def isForbiddenInHost (c : Char) : Bool :=
  c == '\x00' || c == ' ' || c == '<' || c == '>' || c == '[' || c == ']' || c == '\\' ||
    c == '^' || c == '|' || c == '@'

section Numeric

def isHex (c : Char) : Bool :=
  c.isDigit || ('a' ≤ c && c ≤ 'f') || ('A' ≤ c && c ≤ 'F')

def splitOnChar (sep : Char) : List Char → List (List Char)
  | [] => [[]]
  | c :: cs =>
    match splitOnChar sep cs with
    | [] => [[c]]
    | p :: ps => if c = sep then [] :: p :: ps else (c :: p) :: ps

def isByteText (cs : List Char) : Bool :=
  !cs.isEmpty && cs.length ≤ 3 && cs.all Char.isDigit && Nat.ofDigitChars 10 cs 0 ≤ 255 &&
    (cs.length = 1 || cs.head? != some '0')

/-- Four numbers with points between them. -/
def isDotted (cs : List Char) : Bool :=
  let ps := splitOnChar '.' cs
  ps.length = 4 && ps.all isByteText

/-- How many of eight groups a part of an address fills; `none` if it is ill formed. -/
def groups? : List (List Char) → Option Nat
  | [] => some 0
  | [last] =>
    if last.contains '.' then if isDotted last then some 2 else none
    else if !last.isEmpty && last.length ≤ 4 && last.all isHex then some 1 else none
  | g :: gs =>
    if !g.isEmpty && g.length ≤ 4 && g.all isHex then (groups? gs).map (· + 1) else none

/-- The parts before and after the first double colon. -/
def splitGap : List Char → Option (List Char × List Char)
  | ':' :: ':' :: cs => some ([], cs)
  | c :: cs => (splitGap cs).map fun (before, after) => (c :: before, after)
  | [] => none

def partGroups? (cs : List Char) : Option Nat :=
  if cs.isEmpty then some 0 else groups? (splitOnChar ':' cs)

/-- An address of eight groups, some of which a double colon may stand for. -/
def isSixth (cs : List Char) : Bool :=
  match splitGap cs with
  | none => partGroups? cs == some 8
  | some (before, after) =>
    match partGroups? before, partGroups? after with
    | some n, some m => !before.contains '.' && n + m ≤ 7
    | _, _ => false

end Numeric

/-- Splits a host from its port. The host is empty if none is named. -/
def host? (cs : List Char) : Option (List Char × List Char) :=
  match cs with
  | '[' :: inner =>
    match inner.dropWhile (· != ']') with
    | ']' :: port =>
      let address := inner.takeWhile (· != ']')
      if isSixth address && (port.isEmpty || port.head? == some ':') then some (address, port)
      else none
    | _ => none
  | cs =>
    let name := cs.takeWhile (· != ':')
    if name.any isForbiddenInHost then none else some (name, cs.dropWhile (· != ':'))

/-- What follows a port, if it is one. A backslash ends it, too. -/
def afterPort? (cs : List Char) : Option (List Char) :=
  match cs with
  | [] => some []
  | _ :: cs =>
    let ds := cs.takeWhile (· != '\\')
    if ds.all Char.isDigit && Nat.ofDigitChars 10 ds 0 ≤ 65535 then some (cs.dropWhile (· != '\\'))
    else none

/-- An authority, each of its parts empty if there is none. -/
structure Authority where
  user : List Char
  password : List Char
  host : List Char
  /-- What is left of it and belongs to the path. -/
  rest : List Char
  deriving DecidableEq, Repr

def Authority.parse? (cs : List Char) (endsHere : Bool) : Option Authority :=
  let (user, server) := splitUser cs
  match host? server with
  | none => none
  | some (name, port) =>
    let named := match user with
      | none => false
      | some u => u != [] && u != [':']
    let barren := user == some [] && server.isEmpty && !endsHere
    if (name.isEmpty && (!port.isEmpty || named)) || barren then none
    else
      let user := user.getD []
      (afterPort? port).map
        (⟨user.takeWhile (· != ':'), (user.dropWhile (· != ':')).drop 1, name, ·⟩)

section Segments

/-- The segment with its escaped points written out. -/
def plainPoints : List Char → List Char
  | '%' :: '2' :: e :: cs =>
    if e = 'e' ∨ e = 'E' then '.' :: plainPoints cs else '%' :: '2' :: e :: plainPoints cs
  | c :: cs => c :: plainPoints cs
  | [] => []

def isHere (segment : List Char) : Bool := plainPoints segment == ['.']
def isAbove (segment : List Char) : Bool := plainPoints segment == ['.', '.']

/-- A letter of a drive, which no segment leads out of. -/
def isDrive : List Char → Bool
  | [letter, mark] => letter.isAlpha && (mark == ':' || mark == '|')
  | _ => false

/-- Leaves the last segment, the first of these. -/
def leave : List (List Char) → List (List Char)
  | s :: before => if isDrive s then s :: before else before
  | [] => []

/-- Follows the segments from those that stand before them, the last one first. -/
def follow (before : List (List Char)) : List (List Char) → List (List Char)
  | [] => before
  | [s] => if isAbove s then [] :: leave before else if isHere s then [] :: before else s :: before
  | s :: ss =>
    follow (if isAbove s then leave before else if isHere s then before else s :: before) ss

/-- The path without segments that only lead up or nowhere. -/
def straighten (path : List Char) : List Char :=
  match path with
  | '/' :: cs => (follow [] (splitOnChar '/' cs)).reverse.flatMap ('/' :: ·)
  | cs => cs

end Segments

/-- The parts of a URL that matter. -/
structure Parts where
  scheme : Scheme
  authority : Authority
  path : List Char
  query : List Char
  deriving DecidableEq, Repr

def parts? (cs : List Char) : Option Parts :=
  match scheme? (clean cs) with
  | none => none
  | some (scheme, rest) =>
    let beforeFragment := rest.takeWhile (· != '#')
    let query := (beforeFragment.dropWhile (· != '?')).drop 1
    match rest with
    | '/' :: '/' :: rest =>
      let after := rest.dropWhile fun c => !endsAuthority c
      let path := after.takeWhile fun c => c != '?' && c != '#'
      (Authority.parse? (rest.takeWhile fun c => !endsAuthority c) after.isEmpty).map fun a =>
        let path := if a.rest.isEmpty then path else '/' :: a.rest ++ path
        ⟨scheme, a, straighten path, query⟩
    | rest =>
      let path := rest.takeWhile fun c => c != '?' && c != '#'
      some ⟨scheme, ⟨[], [], [], []⟩, straighten path, query⟩

section Query

def hexDigit? (c : Char) : Option Nat :=
  if c.isDigit then some (c.toNat - '0'.toNat)
  else if 'a' ≤ c ∧ c ≤ 'f' then some (c.toNat - 'a'.toNat + 10)
  else if 'A' ≤ c ∧ c ≤ 'F' then some (c.toNat - 'A'.toNat + 10)
  else none

/-- Two hexadecimal digits after a percent sign are a byte. -/
def unescape : List Char → Bytes
  | '%' :: a :: b :: cs =>
    match hexDigit? a, hexDigit? b with
    | some x, some y => (16 * x + y).toUInt8 :: unescape cs
    | _, _ => 0x25 :: unescape (a :: b :: cs)
  | c :: cs => Utf8.encodeChar c ++ unescape cs
  | [] => []

/-- In a query a plus sign is a blank. -/
def queryText (cs : List Char) : String :=
  Utf8.decodeLossy (unescape (cs.map fun c => if c = '+' then ' ' else c))

/-- The last value of a name in the query. -/
def queryValue? (query : List Char) (name : String) : Option String :=
  let pairs := (splitOnChar '&' query).map fun p =>
    (queryText (p.takeWhile (· != '=')), queryText ((p.dropWhile (· != '=')).drop 1))
  pairs.reverse.lookup name

end Query

def database? (cs : List Char) : Except Fault Int :=
  match Decimal.parseSigned (UInt64.size / 2 - 1) cs with
  | .ok n => .ok n
  | .error _ => .error .database

/-- The database is the path without the slashes around it, and 0 if nothing is left. -/
def pathDatabase (path : List Char) : Except Fault Int :=
  let cs := (path.dropWhile (· == '/')).reverse.dropWhile (· == '/')
  if cs.isEmpty then .ok 0 else database? cs.reverse

/-- Escaped text that has to be valid. -/
def checkText (fault : Fault) (cs : List Char) : Except Fault Unit :=
  match Utf8.decode? (unescape cs) with
  | some _ => .ok ()
  | none => .error fault

/-- The versions of the protocol, by number and by name. -/
def protocols : List String := ["2", "resp2", "3", "resp3"]

def checkProtocol (query : List Char) : Except Fault Unit :=
  match queryValue? query "protocol" with
  | none => .ok ()
  | some name => if name ∈ protocols then .ok () else .error (.protocol name)

/-- A socket's path. One that ends in what looks like a drive gets a slash. -/
def socketPath (path : List Char) : Bytes :=
  let bs := unescape path
  match bs.reverse with
  | mark :: letter :: _ :: _ =>
    if isDrive [Char.ofNat letter.toNat, Char.ofNat mark.toNat] then bs ++ [0x2F] else bs
  | _ => bs

def hostAddress (p : Parts) : Except Fault Address := do
  let database ← pathDatabase p.path
  checkText .username p.authority.user
  checkText .password p.authority.password
  checkProtocol p.query
  return .host (String.ofList p.authority.host) database

def socketAddress (p : Parts) : Except Fault Address := do
  let database ← match queryValue? p.query "db" with
    | none => .ok 0
    | some text => database? text.toList
  checkProtocol p.query
  return .socket (socketPath p.path) database

def ofParts (p : Parts) : Except Fault Address :=
  let host := p.authority.host
  match p.scheme with
  | .plain => if host.isEmpty then .error .noHost else hostAddress p
  | .secure => if host.isEmpty then .error .noHost else .error .encrypted
  | .socket =>
    let isLocal := host.isEmpty || host == "localhost".toList
    if !isLocal || p.path.head? != some '/' then .error .noPath else socketAddress p

def parse (url : String) : Except Fault Address :=
  match parts? url.toList with
  | none => .error .unreadable
  | some p => ofParts p

/-- The error of a client that could not be made. -/
def Fault.error (f : Fault) : QueueError := .store ("Failed to create Redis client: " ++ f.message)

/-- One more than the bytes that the path of a socket may have. -/
def socketPathLimit : Nat := 108

/-- Why there is no connection when nobody listens. Of the paths only the root is sure to
lead somewhere. -/
def absence : Address → String
  | .socket path _ =>
    if path.contains 0 then "paths must not contain interior null bytes"
    else if socketPathLimit ≤ path.length then "path must be shorter than SUN_LEN"
    else if path.all (· == 0x2F) then "Connection refused (os error 111)"
    else "No such file or directory (os error 2)"
  | .host .. => "No such file or directory (os error 2)"

/-- The error of a connection to an address at which nobody listens. -/
def unreachable (a : Address) : QueueError := .store ("Failed to connect to Redis: " ++ a.absence)

end Address

end DelayedQueue.Redis
