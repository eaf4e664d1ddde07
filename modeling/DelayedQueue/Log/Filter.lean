import DelayedQueue.Config.Environment
import DelayedQueue.Log.Directive

/-! # Which events are logged

A filter is a list of directives. For an event the most particular one that covers it
decides, and an event that none covers does not pass.
-/

namespace DelayedQueue.Log

abbrev Filter := List Directive

namespace Filter

/-- The pieces between commas. -/
def pieces : List Char → List (List Char)
  | [] => [[]]
  | c :: cs =>
    match pieces cs with
    | [] => [[c]]
    | p :: ps => if c = ',' then [] :: p :: ps else (c :: p) :: ps

/-- Only events of this level and above, whatever their targets. -/
def ofLevel (l : Level) : Filter := [{ least := some l }]

/-- Without directives only errors pass. -/
def read (s : String) : Except Directive.Fault Filter :=
  match (pieces s.toList).filter fun p => !p.isEmpty with
  | [] => .ok (ofLevel .error)
  | ps => ps.mapM Directive.read

/-- The directive that decides about an event. -/
def deciding? (f : Filter) (e : Event) : Option Directive :=
  (f.filter (·.covers e)).foldl
    (fun best d => if best.all d.outranks then some d else best) none

def passes (f : Filter) (e : Event) : Bool :=
  ((f.deciding? e).bind (·.least)).any e.level.reaches

end Filter

end DelayedQueue.Log
