/-! # Cutting text at bytes

Places in a text count the bytes of its UTF-8. A place inside a character is no place to cut.
-/

namespace DelayedQueue.Text

/-- A character that a cut would tear. -/
structure Torn where
  /-- Where the text was to be cut. -/
  place : Nat
  char : Char
  /-- The place before the character. -/
  first : Nat
  deriving DecidableEq, Repr

namespace Torn

/-- The place behind the character. -/
def last (t : Torn) : Nat := t.first + t.char.utf8Size

end Torn

/-- What lies before and what lies behind `place`, in a text that begins at `first`. -/
def cutFrom (first place : Nat) : List Char → Except Torn (List Char × List Char)
  | [] => .ok ([], [])
  | c :: cs =>
    if place ≤ first then .ok ([], c :: cs)
    else if place < first + c.utf8Size then .error ⟨place, c, first⟩
    else (cutFrom (first + c.utf8Size) place cs).map fun parts => (c :: parts.1, parts.2)

def cut (place : Nat) (cs : List Char) : Except Torn (List Char × List Char) := cutFrom 0 place cs

end DelayedQueue.Text
