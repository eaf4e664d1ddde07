import DelayedQueue.Queue.Tasks

/-! # The outline of a queue

What a queue shows of its life without its store: where each task is, who waits for the end,
and what the workers have done. `Outline.Step` says all that one move can do to it;
that moves do nothing else is `Queue.move_step`.
-/

namespace DelayedQueue

/-- The worker that has tried to take a message, begun or ended a handler, or committed. -/
def Entry.worker? : Entry → Option Nat
  | .attempted i | .invoked i _ | .ended i _ _ | .committed i _ => some i
  | _ => none

def Entry.isDeed (e : Entry) : Bool := e.worker?.isSome

/-- What a handler can be about to do after its next step. A call that panics ends it. -/
inductive Activity.Leads : Activity → Activity → Prop where

  | pause {d : Duration} {rest : Activity} : Leads (.pause d rest) rest

  | report {r : Report} {rest : Activity} : Leads (.report r rest) rest

  | notify {n : Notice} {rest : Activity} : Leads (.notify n rest) rest

  | redeliverAfter {id : String} {delay : Duration} {next : Except QueueError Bool → Activity}
      (r : Except QueueError Bool) : Leads (.redeliverAfter id delay next) (next r)

  | redeliverAfter_panic {id : String} {delay : Duration}
      {next : Except QueueError Bool → Activity} (text : Option String) :
      Leads (.redeliverAfter id delay next) (.finish (.panic text))

  | redeliverAt {id : String} {t : Time} {next : Except QueueError Bool → Activity}
      (r : Except QueueError Bool) : Leads (.redeliverAt id t next) (next r)

  | produce {d : Draft} {next : Except QueueError String → Activity}
      (r : Except QueueError String) : Leads (.produce d next) (next r)

  | produce_panic {d : Draft} {next : Except QueueError String → Activity}
      (text : Option String) : Leads (.produce d next) (.finish (.panic text))

  | store {op : StoreOp} {next : StoreResult → Activity} (r : StoreResult) :
      Leads (.store op next) (next r)

namespace Worker.Phase

/-- Ended, by a panic or otherwise. -/
def HasEnded (p : Worker.Phase) : Prop := p = .stopped ∨ p = .broken

/-- Between two messages, where cancellation is looked at. -/
inductive Waits : Worker.Phase → Prop where
  | looping (again : Bool) : Waits (.looping again)
  | ticking : Waits .ticking
  | throttled (due : Instant) : Waits (.throttled due)

/-- When the wait for a token ends. -/
def due? : Worker.Phase → Option Instant
  | .throttled t => some t
  | _ => none

theorem Waits.not_hasEnded {p : Worker.Phase} (h : p.Waits) : ¬ p.HasEnded := by
  rintro (rfl | rfl) <;> cases h

end Worker.Phase

theorem Worker.hasEnded_iff (w : Worker) : w.hasEnded = true ↔ w.phase.HasEnded := by
  cases hp : w.phase <;> simp [Worker.hasEnded, Worker.Phase.HasEnded, hp]

namespace Daemon.Phase

def HasEnded (p : Daemon.Phase) : Prop := p = .stopped ∨ p = .broken

/-- What one step of the daemon can do. -/
inductive Turn (cancelled : Bool) : Daemon.Phase → Daemon.Phase → Prop where

  | start : Turn cancelled .fresh .waiting

  | stop (hc : cancelled = true) : Turn cancelled .waiting .stopped

  | tick (hc : cancelled = false) : Turn cancelled .waiting (.promoting 0)

  | tick_panic (hc : cancelled = false) : Turn cancelled .waiting .broken

  | endPass (total : Nat) : Turn cancelled (.promoting total) .waiting

  | goOn (total total' : Nat) (hc : cancelled = false) :
      Turn cancelled (.promoting total) (.promoting total')

  | promote_panic (total : Nat) : Turn cancelled (.promoting total) .broken

theorem Turn.not_hasEnded {cancelled : Bool} {p p' : Daemon.Phase} (h : Turn cancelled p p') :
    ¬ p.HasEnded := by
  rintro (rfl | rfl) <;> cases h

end Daemon.Phase

theorem Daemon.hasEnded_iff (d : Daemon) : d.hasEnded = true ↔ d.phase.HasEnded := by
  cases hp : d.phase <;> simp [Daemon.hasEnded, Daemon.isBroken, Daemon.Phase.HasEnded, hp]

/-- The tasks of a queue that is being consumed, by their phases. -/
structure Crew where
  cancelled : Bool
  done : Bool
  daemon : Daemon.Phase
  workers : List Worker.Phase

namespace Crew

def fresh (workers : Nat) : Crew := ⟨false, false, .fresh, List.replicate workers .fresh⟩

def cancel (c : Crew) : Crew := { c with cancelled := true }

def setPhase (i : Nat) (p : Worker.Phase) (c : Crew) : Crew :=
  { c with workers := c.workers.set i p }

theorem setPhase_self {c : Crew} {i : Nat} {p : Worker.Phase} (h : c.workers[i]? = some p) :
    c.setPhase i p = c := by
  obtain ⟨hi, rfl⟩ := List.getElem?_eq_some_iff.mp h
  simp only [setPhase, List.set_getElem_self]

structure AllEnded (c : Crew) : Prop where
  daemon : c.daemon.HasEnded
  workers : ∀ p ∈ c.workers, p.HasEnded

end Crew

namespace Session

def crew (s : Session) : Crew := ⟨s.cancelled, s.done, s.daemon.phase, s.workers.map Worker.phase⟩

variable {s : Session}

@[simp] theorem crew_cancel : s.cancel.crew = s.crew.cancel := rfl

@[simp] theorem crew_setPhase (i : Nat) (p : Worker.Phase) :
    (s.setPhase i p).crew = s.crew.setPhase i p := by
  have h : (s.workers.modify i fun w => { w with phase := p }).map Worker.phase =
      (s.workers.map Worker.phase).set i p := by
    refine List.ext_getElem? fun j => ?_
    by_cases hj : i = j
    · subst hj
      cases hw : s.workers[i]? with
      | none => simpa [hw] using List.getElem?_eq_none_iff.mp hw
      | some w =>
        have hi := (List.getElem?_eq_some_iff.mp hw).1
        simp [hi]
    · simp [hj]
  simp only [crew, setPhase, Crew.setPhase, h]

theorem crew_setWorker (i : Nat) (w : Worker) :
    ({ s with workers := s.workers.set i w } : Session).crew = s.crew.setPhase i w.phase := by
  simp only [crew, Crew.setPhase, List.map_set]

theorem allEnded_iff : s.allEnded = true ↔ s.crew.AllEnded := by
  simp only [allEnded, Bool.and_eq_true, Daemon.hasEnded_iff, List.all_eq_true, Worker.hasEnded_iff]
  exact ⟨fun h => ⟨h.1, by simpa [crew] using h.2⟩, fun h => ⟨h.1, by simpa [crew] using h.2⟩⟩

end Session

/-- The life of a queue, and the deeds of its workers with the latest first. -/
structure Outline where
  config : Config
  /-- The calls of the store that fail. -/
  plan : List (StoreCall × Nat)
  begun : Clocks
  now : Instant
  lifecycle : Lifecycle
  crew : Option Crew
  closers : List Closer
  deeds : List (Instant × Entry)

namespace Outline

def setCrew (c : Crew) (o : Outline) : Outline := { o with crew := some c }

def log (e : Entry) (o : Outline) : Outline := { o with deeds := (o.now, e) :: o.deeds }

/-- Worker `i` comes to phase `p` after some deeds. -/
def put (i : Nat) (p : Worker.Phase) (es : List Entry) (o : Outline) : Outline :=
  { o with crew := o.crew.map (Crew.setPhase i p), deeds := es.map (Prod.mk o.now) ++ o.deeds }

theorem put_log (i : Nat) (p : Worker.Phase) (es : List Entry) (e : Entry) (o : Outline) :
    (o.log e).put i p es = o.put i p (es ++ [e]) := by
  simp only [put, log, List.map_append, List.append_assoc]
  rfl

variable (o : Outline) (i : Nat)

/-- What a worker comes to when it looks for a message. -/
inductive Poll : Worker.Phase → List Entry → Prop where

  | throttled (due : Instant) : Poll (.throttled due) []

  | blind : Poll .broken []

  | lost : Poll .broken [.attempted i]

  | nothing (again : Bool) : Poll (.looping again) [.attempted i]

  | invoked (m : Message) (a : Activity) :
      Poll (.handling ⟨m, a, o.now, o.now.deadline o.config.consumeTimeout⟩)
        [.invoked i m, .attempted i]

/-- How a delivery can end, with what outcome: the handler comes to its own end, or it is past
its deadline. -/
inductive Ends (d : Delivery) : Outcome → Prop where

  | finished {e : Ending} (he : d.activity = .finish e) :
      Ends d (Queue.outcomeOf d.message e).1

  | late (hd : d.deadline ≤ o.now) : Ends d (Queue.lateOutcome o.config)

/-- What one step of worker `i` can do, and the deeds in it. -/
inductive Turn (cancelled : Bool) : Worker.Phase → Worker.Phase → List Entry → Prop where

  | start : Turn cancelled .fresh (.looping false) []

  | stop {p : Worker.Phase} (hc : cancelled = true) (hp : p.Waits) : Turn cancelled p .stopped []

  | await (hc : cancelled = false) : Turn cancelled (.looping false) .ticking []

  | poll {p p' : Worker.Phase} {es : List Entry} (hc : cancelled = false) (hp : p.Waits)
      (h : o.Poll i p' es) : Turn cancelled p p' es

  | goOn {d : Delivery} {a : Activity} {wake : Instant} (h : d.activity.Leads a) :
      Turn cancelled (.handling d) (.handling { d with activity := a, wake }) []

  | ended {d : Delivery} {r : Outcome} {now : Time} (h : o.Ends d r)
      (hw : WallClock.readAt o.begun o.now = .ok now) :
      Turn cancelled (.handling d) (.settling d.message (d.message.latency now) r)
        [.ended i d.message r]

  | ended_blind {d : Delivery} {r : Outcome} {e : Panic} (h : o.Ends d r)
      (hw : WallClock.readAt o.begun o.now = .error e) :
      Turn cancelled (.handling d) .broken [.ended i d.message r]

  | leave {m : Message} {latency : Duration} {f : Failure} :
      Turn cancelled (.settling m latency (.failed f)) (.looping true) []

  | commit {m : Message} {latency : Duration} :
      Turn cancelled (.settling m latency .success) (.looping true) [.committed i m.id]

  | commit_fails {m : Message} {latency : Duration} {n : Nat} (h : (.commit, n) ∈ o.plan) :
      Turn cancelled (.settling m latency .success) (.looping true) []

variable {o i}

theorem Turn.not_hasEnded {cancelled : Bool} {p p' : Worker.Phase} {es : List Entry}
    (h : o.Turn i cancelled p p' es) : ¬ p.HasEnded := by
  cases h with
  | stop _ hp => exact hp.not_hasEnded
  | poll _ hp => exact hp.not_hasEnded
  | _ => rintro (h | h) <;> cases h

end Outline

def Lifecycle.shuttingDown : Lifecycle := ⟨.shuttingDown, true, true⟩

/-- The tasks that a queue has in each part of its life. Once they are done they stay so. -/
inductive Lifecycle.Fits : Lifecycle → Option Crew → Prop where

  | idle : Fits .idle none

  | running {c : Crew} (hc : c.cancelled = false) (hd : c.done = true → c.AllEnded) :
      Fits .running (some c)

  | shuttingDown {c : Crew} (hc : c.cancelled = true) (hd : c.done = true → c.AllEnded) :
      Fits .shuttingDown (some c)

  | unused : Fits .stopped none

  | stopped {c : Crew} (hc : c.cancelled = true) (hd : c.done = true) (he : c.AllEnded) :
      Fits .stopped (some c)

namespace Lifecycle.Fits

variable {l : Lifecycle} {c c' : Crew}

theorem allEnded (h : l.Fits (some c)) (hd : c.done = true) : c.AllEnded := by
  cases h with
  | running _ he => exact he hd
  | shuttingDown _ he => exact he hd
  | stopped _ _ he => exact he

theorem setCrew (h : l.Fits (some c)) (hc : c'.cancelled = c.cancelled)
    (hd : c.done = true → c'.done = true) (he : c'.done = true → c'.AllEnded) :
    l.Fits (some c') := by
  cases h with
  | running hr => exact .running (hc.trans hr) he
  | shuttingDown hr => exact .shuttingDown (hc.trans hr) he
  | stopped hr hf => exact .stopped (hc.trans hr) (hd hf) (he (hd hf))

section Holds

variable {crew : Option Crew}

theorem holdsToken_iff (h : l.Fits crew) :
    l.holdsToken = true ↔ l.state = .running ∨ l.state = .shuttingDown := by
  cases h <;> decide

theorem holdsSignal_iff (h : l.Fits crew) :
    l.holdsSignal = true ↔ l.state = .running ∨ l.state = .shuttingDown := by
  cases h <;> decide

theorem exists_crew (h : l.Fits crew) (ht : l.holdsToken = true) : ∃ c, crew = some c := by
  cases h with
  | idle | unused => cases ht
  | _ => exact ⟨_, rfl⟩

theorem crew_eq_none (h : l.Fits crew) (hl : l = .idle) : crew = none := by
  subst hl
  cases h
  rfl

theorem cancelled_iff (h : l.Fits (some c)) :
    c.cancelled = true ↔ LifeState.running.rank < l.state.rank := by
  cases h with
  | running hc | shuttingDown hc | stopped hc => rw [hc]; decide

end Holds

theorem stop (h : l.Fits (some c)) (hl : LifeState.running.rank < l.state.rank)
    (hd : c.done = true) : Lifecycle.Fits .stopped (some c) := by
  cases h with
  | running => exact absurd hl (by decide)
  | shuttingDown hc he => exact .stopped hc hd (he hd)
  | stopped hc _ he => exact .stopped hc hd he

end Lifecycle.Fits

namespace Outline

def addCloser (c : Closer) (o : Outline) : Outline := { o with closers := o.closers ++ [c] }

def setCloser (j : Nat) (r : Except QueueError Unit) (o : Outline) : Outline :=
  { o with closers := o.closers.set j (.returned r) }

/-- All that one move can do. -/
inductive Step (o : Outline) : Queue.Move → Outline → Prop where

  | stay {m : Queue.Move} (hm : ∀ d, m ≠ .close d) : Step o m o

  | elapse (d : Duration) : Step o (.elapse d) { o with now := o.now + d.nanos }

  | consume (base : Handler) (hasExecutor : Bool) (workers : Nat) (hl : o.lifecycle = .idle) :
      Step o (.consume base hasExecutor)
        { o with lifecycle := .running, crew := some (.fresh workers) }

  | close (d : Duration) (hl : o.lifecycle = .idle ∨ o.lifecycle = .stopped) :
      Step o (.close d) ({ o with lifecycle := .stopped }.addCloser (.returned (.ok ())))

  | shutDown (d : Duration) (hl : o.lifecycle = .running ∨ o.lifecycle = .shuttingDown) :
      Step o (.close d)
        ({ o with lifecycle := .shuttingDown, crew := o.crew.map Crew.cancel }.addCloser
          (.waiting d (o.now.deadline d)))

  | closed {j : Nat} {d : Duration} {due : Instant} {c : Crew}
      (hj : o.closers[j]? = some (.waiting d due)) (hc : o.crew = some c) (hd : c.done = true) :
      Step o (.step (.closer j)) ({ o with lifecycle := .stopped }.setCloser j (.ok ()))

  | late {j : Nat} {d : Duration} {due : Instant} (hj : o.closers[j]? = some (.waiting d due))
      (hd : ∀ c, o.crew = some c → c.done = false) (ht : due ≤ o.now) :
      Step o (.step (.closer j)) (o.setCloser j (.error (.shutdownTimeout d)))

  | publish {c : Crew} (hc : o.crew = some c) (he : c.AllEnded) :
      Step o (.step .supervisor) (o.setCrew { c with done := true })

  | daemon {c : Crew} {p : Daemon.Phase} (hc : o.crew = some c)
      (hp : Daemon.Phase.Turn c.cancelled c.daemon p) :
      Step o (.step .daemon) (o.setCrew { c with daemon := p })

  | worker {c : Crew} {i : Nat} {p p' : Worker.Phase} {es : List Entry} (hc : o.crew = some c)
      (hi : c.workers[i]? = some p) (hp : o.Turn i c.cancelled p p' es) :
      Step o (.step (.worker i)) (o.put i p' es)

theorem Step.stay_step {o : Outline} {t : Queue.Task} : o.Step (.step t) o :=
  .stay (by rintro d ⟨⟩)

end Outline

namespace Queue

/-- All of a queue but its store and what only reports. -/
def outline (q : Queue) : Outline where
  config := q.config
  plan := q.faults.plan
  begun := q.begun
  now := q.now
  lifecycle := q.lifecycle
  crew := q.session.map Session.crew
  closers := q.closers
  deeds := q.journal.filter fun e => e.2.isDeed

variable {q : Queue} {s : Session} {i : Nat} {p : Worker.Phase}

section Parts

@[simp] theorem outline_notify (n : Notice) : (q.notify n).outline = q.outline := rfl

@[simp] theorem outline_foldl_notify {α : Type} (f : α → Notice) (l : List α) :
    (l.foldl (fun q a => q.notify (f a)) q).outline = q.outline := by
  induction l generalizing q with
  | nil => rfl
  | cons a l ih => exact ih

theorem outline_note {e : Entry} (he : e.isDeed = true) :
    (q.note e).outline = q.outline.log e := by
  have h : ((q.now, e) :: q.journal).filter (fun e => e.2.isDeed) =
      (q.now, e) :: q.journal.filter fun e => e.2.isDeed := List.filter_cons_of_pos he
  simp only [outline, note, Outline.log, h]

@[simp] theorem outline_strike (c : StoreCall) : (q.strike c).2.outline = q.outline := rfl

theorem mem_plan_of_strike {c : StoreCall} (h : (q.strike c).1 = true) :
    ∃ n, (c, n) ∈ q.outline.plan :=
  ⟨_, List.contains_iff_mem.mp h⟩

@[simp] theorem outline_setSession : (q.setSession s).outline = q.outline.setCrew s.crew := rfl

/-- A new limiter or a new ticker is not seen. -/
theorem outline_setSession_of_crew (h : q.outline.crew = some s.crew) :
    (q.setSession s).outline = q.outline := by
  rw [outline_setSession, Outline.setCrew, ← h]

@[simp] theorem outline_setPhase : (q.setPhase i p).outline = q.outline.put i p [] := by
  have h : (q.session.map (Session.setPhase i p)).map Session.crew =
      (q.session.map Session.crew).map (Crew.setPhase i p) := by
    simp only [Option.map_map, Function.comp_def, Session.crew_setPhase]
  simp only [outline, setPhase, Outline.put, h, List.map_nil, List.nil_append]

end Parts

end Queue

end DelayedQueue
