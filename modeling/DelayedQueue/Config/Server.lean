import DelayedQueue.Config.Environment

/-! # Where the server is

The address of a networked store. A password in it is hidden before it is logged: the
text between the last colon before the first `@` and that `@`, unless that colon
belongs to the scheme.
-/

namespace DelayedQueue

structure Server where
  url : String
  deriving DecidableEq, Repr

namespace Server

def default : Server := ⟨"redis://127.0.0.1:6379"⟩

def ofEnvironment (env : Environment) : Server :=
  match env.get? "REDIS_URL" with
  | some url => ⟨url⟩
  | none => default

/-- The text up to and including the last colon, and what follows it. -/
def splitAtLastColon (cs : List Char) : Option (List Char × List Char) :=
  let after := (cs.reverse.takeWhile (· != ':')).reverse
  let upTo := cs.take (cs.length - after.length)
  if upTo.isEmpty then none else some (upTo, after)

def redactChars (cs : List Char) : List Char :=
  let before := cs.takeWhile (· != '@')
  let rest := cs.dropWhile (· != '@')
  if rest.isEmpty then cs
  else match splitAtLastColon before with
    | none => cs
    | some (upTo, secret) =>
      if ['/', '/'].isPrefixOf (secret ++ rest) then cs
      else upTo ++ ['*', '*', '*'] ++ rest

def redacted (s : Server) : String := String.ofList (redactChars s.url.toList)

end Server

end DelayedQueue
