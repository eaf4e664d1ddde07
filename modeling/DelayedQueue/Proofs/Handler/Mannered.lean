import DelayedQueue.Handler.Script
import DelayedQueue.Proofs.Store.Run

/-! # Mannered handlers

A handler may hold the store itself and do to it what it likes. A mannered one goes to the
store past the queue only to make messages due; what it produces, it produces through the
queue, and it takes, commits and purges nothing. All scripted handlers are mannered.
-/

namespace DelayedQueue

def Activity.Mannered : Activity → Prop
  | .finish _ | .hang => True
  | .pause _ rest | .report _ rest | .notify _ rest => rest.Mannered
  | .redeliverAfter _ _ next | .redeliverAt _ _ next => ∀ r, (next r).Mannered
  | .produce _ next => ∀ r, (next r).Mannered
  | .store op next => op.isTiming = true ∧ ∀ r, (next r).Mannered

def Handler.Mannered (h : Handler) : Prop := ∀ m, (h m).Mannered

/-- A middleware that makes no mannered handler an unmannered one. -/
def Middleware.Mannered (w : Middleware) : Prop := ∀ h, Handler.Mannered h → Handler.Mannered (w h)

theorem Activity.Mannered.bind {a : Activity} {f : Ending → Activity} (ha : a.Mannered)
    (hf : ∀ e, (f e).Mannered) : (a.bind f).Mannered := by
  induction a with
  | finish e =>
    cases e with
    | panic => trivial
    | success | failure => exact hf _
  | hang => trivial
  | pause _ _ ih | report _ _ ih | notify _ _ ih => exact ih ha
  | redeliverAfter _ _ _ ih | redeliverAt _ _ _ ih | produce _ _ ih => exact fun r => ih r (ha r)
  | store op _ ih => exact ⟨ha.1, fun r => ih r (ha.2 r)⟩

theorem Handler.mannered_compose {base : Handler} {chain : List Middleware}
    (hb : Handler.Mannered base) (hc : ∀ w ∈ chain, Middleware.Mannered w) :
    Handler.Mannered (Handler.compose base chain) := by
  induction chain with
  | nil => exact hb
  | cons w chain ih =>
    exact hc w List.mem_cons_self _ (ih fun v hv => hc v (List.mem_cons_of_mem _ hv))

theorem Handler.mannered_tracing : Middleware.Mannered Handler.tracing :=
  fun _ hh m => (hh m).bind fun _ => trivial

theorem Action.mannered_perform (id : String) (as : List Action) :
    (Action.perform id as).Mannered := by
  induction as with
  | nil => trivial
  | cons a as ih =>
    cases a with
    | sleep | panic | fail => first | exact ih | trivial
    | redeliverAfter | redeliverAt => exact fun _ => ih
    | produce =>
      intro r
      cases r with
      | ok new => exact ih
      | error e => trivial

theorem Scripts.mannered_handler (ss : Scripts) (call : String → String) :
    Handler.Mannered (ss.handler call) :=
  fun m => Action.mannered_perform m.id _

end DelayedQueue
