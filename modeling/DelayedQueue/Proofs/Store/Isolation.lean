import DelayedQueue.Proofs.Keys.Names
import DelayedQueue.Proofs.Store.Run

/-! # Queues are isolated

Queues that share a store do not meet in it. What is asked about one queue is answered from what was
done on that queue, and changes nothing of another one, so a run of many queues is for each of them
the run it would have had alone.
-/

namespace DelayedQueue

/-- What can be asked of a store about a queue: an operation, or what is there. -/
inductive StoreRequest where
  | operate (op : StoreOp)
  | stats
  | row (id : String)
  | score (id : String)
  | isReady (id : String)
  deriving DecidableEq, Repr

inductive StoreAnswer where
  | result (r : StoreResult)
  | stats (n : Stats)
  | row (row : Option Bytes)
  | score (due : Option Score)
  | flag (b : Bool)
  deriving DecidableEq, Repr

namespace Space

variable {s : Space}

def call (s : Space) : StoreRequest → StoreAnswer × Space
  | .operate op => (.result (s.apply op).1, (s.apply op).2)
  | .stats => (.stats s.stats, s)
  | .row id => (.row (s.row? id), s)
  | .score id => (.score (s.score? id), s)
  | .isReady id => (.flag (s.isReady id), s)

/-- Answers one call after another. -/
def serve (s : Space) : List StoreRequest → List StoreAnswer × Space
  | [] => ([], s)
  | c :: cs => ((s.call c).1 :: ((s.call c).2.serve cs).1, ((s.call c).2.serve cs).2)

end Space

namespace Store

variable {s s' : Store} {n n₁ n₂ : String} {c : StoreRequest}

def call (s : Store) (k : Keys) : StoreRequest → StoreAnswer × Store
  | .operate op => (.result (s.apply k op).1, (s.apply k op).2)
  | .stats => (.stats (s.stats k), s)
  | .row id => (.row ((s.space k).row? id), s)
  | .score id => (.score ((s.space k).score? id), s)
  | .isReady id => (.flag ((s.space k).isReady id), s)

/-- Answers calls on queues, each with the queue's name. -/
def serve (s : Store) : List (String × StoreRequest) → List (String × StoreAnswer) × Store
  | [] => ([], s)
  | (n, c) :: cs =>
    let r := (s.call (.ofName n) c).2.serve cs
    ((n, (s.call (.ofName n) c).1) :: r.1, r.2)

/-- The part that is about one queue. -/
def on {α : Type} (n : String) (l : List (String × α)) : List α :=
  (l.filter fun e => e.1 = n).map Prod.snd

section Calls

theorem call_fst (k : Keys) : (s.call k c).1 = ((s.space k).call c).1 := by
  cases c with
  | operate op => exact congrArg StoreAnswer.result (apply_fst op)
  | _ => rfl

theorem space_call (k : Keys) : (s.call k c).2.space k = ((s.space k).call c).2 := by
  cases c with
  | operate op => exact space_apply op
  | _ => rfl

theorem space_call_of_ne (h : n₁ ≠ n₂) :
    (s.call (.ofName n₁) c).2.space (.ofName n₂) = s.space (.ofName n₂) := by
  cases c with
  | operate op => exact space_apply_of_ne (Keys.data_ofName_inj.not.mpr h) op
  | _ => rfl

end Calls

section Runs

variable {α : Type}

@[simp] theorem on_cons_self (a : α) (l : List (String × α)) :
    on n ((n, a) :: l) = a :: on n l := by
  simp [on]

theorem on_cons_of_ne (h : n₁ ≠ n) (a : α) (l : List (String × α)) :
    on n ((n₁, a) :: l) = on n l := by
  simp [on, h]

/-- What a queue has of a run of many queues is a run of its space. -/
theorem serve_on (calls : List (String × StoreRequest)) :
    (on n (s.serve calls).1, (s.serve calls).2.space (.ofName n)) =
      (s.space (.ofName n)).serve (on n calls) := by
  induction calls generalizing s with
  | nil => rfl
  | cons e calls ih =>
    obtain ⟨n', c⟩ := e
    have ih := ih (s := (s.call (.ofName n') c).2)
    by_cases h : n' = n
    · subst h
      rw [space_call] at ih
      rw [on_cons_self, Space.serve, ← ih, serve, on_cons_self, call_fst]
    · rw [space_call_of_ne h] at ih
      rw [on_cons_of_ne h, ← ih, serve, on_cons_of_ne h]

theorem on_map_self (n : String) (l : List α) : on n (l.map (n, ·)) = l := by
  induction l with
  | nil => rfl
  | cons a l ih => rw [List.map_cons, on_cons_self, ih]

end Runs

/-- Queues of different names have different keys throughout, whatever the names. No call on one
of them changes the ready list, the pending ids or the rows of the other. What it is answered, and
what it leaves of its own queue, depends on the calls on that queue alone: two runs that agree on
them and on what the queue was at first agree on the answers and on what it becomes, whatever
else is asked of the two stores. So what a run of many queues is for one of them is the run of that
queue alone. -/
theorem isolated (hn : n₁ ≠ n₂) :
    ((Keys.ofName n₁).all ++ (Keys.ofName n₂).all).Nodup ∧
    (∀ (s : Store) c, (s.call (.ofName n₁) c).2.space (.ofName n₂) = s.space (.ofName n₂)) ∧
    (∀ (s s' : Store) calls calls', s.space (.ofName n₁) = s'.space (.ofName n₁) →
      on n₁ calls = on n₁ calls' →
      on n₁ (s.serve calls).1 = on n₁ (s'.serve calls').1 ∧
      (s.serve calls).2.space (.ofName n₁) = (s'.serve calls').2.space (.ofName n₁)) ∧
    ∀ (s : Store) calls,
      let alone := s.serve ((on n₁ calls).map (n₁, ·))
      on n₁ (s.serve calls).1 = on n₁ alone.1 ∧
      (s.serve calls).2.space (.ofName n₁) = alone.2.space (.ofName n₁) := by
  have hruns : ∀ (s s' : Store) calls calls', s.space (.ofName n₁) = s'.space (.ofName n₁) →
      on n₁ calls = on n₁ calls' →
      on n₁ (s.serve calls).1 = on n₁ (s'.serve calls').1 ∧
      (s.serve calls).2.space (.ofName n₁) = (s'.serve calls').2.space (.ofName n₁) := by
    intro s s' calls calls' hs hc
    have h := serve_on (n := n₁) (s := s) calls
    rw [hs, hc, ← serve_on calls'] at h
    exact Prod.mk.inj h
  refine ⟨Keys.nodup_all_append hn, fun s c => space_call_of_ne hn, hruns, fun s calls => ?_⟩
  exact hruns s s calls _ rfl (on_map_self n₁ _).symm

/-- Calls on a queue whose name runs into what comes after a name in a key, and on a plain one. -/
def sharedCalls : List (String × StoreRequest) :=
  [("q", .operate (.produce ⟨"a", [1], .epoch, none, none, 0⟩ .epoch)),
    ("q\x7d:data", .operate (.produce ⟨"a", [2], .epoch, some .latest, none, 0⟩ .epoch)),
    ("q", .operate (.take (.ofMillis 5) 2 .epoch)), ("q\x7d:data", .operate .purge), ("q", .stats),
    ("q\x7d:data", .operate (.commit "a")), ("q\x7d:data", .stats)]

theorem isolated_purged : "q\x7d:data" ≠ "q" ∧
    ((Keys.ofName "q\x7d:data").all ++ (Keys.ofName "q").all).Nodup ∧
    (((empty.serve sharedCalls).2.call (.ofName "q\x7d:data") (.operate .purge)).2.space
      (.ofName "q")) = (empty.serve sharedCalls).2.space (.ofName "q") ∧
    on "q\x7d:data" (empty.serve sharedCalls).1 =
      [.result .done, .result .done, .result (.flag false), .stats ⟨0, 0, 0⟩] := by
  have hne : "q\x7d:data" ≠ "q" := by decide
  obtain ⟨hkeys, hspace, -, halone⟩ := isolated hne
  refine ⟨hne, hkeys, hspace _ _, (halone empty sharedCalls).1.trans ?_⟩
  decide +kernel

end Store

end DelayedQueue
