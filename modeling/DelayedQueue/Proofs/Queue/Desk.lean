import DelayedQueue.Proofs.Queue.Course

/-! # Registering middleware while others consume

Registering a middleware and beginning to consume are calls of several steps, which clones of a
queue can make at the same time. Each looks at the life of the queue under a lock, and keeps the
lock until it is done: until the middleware is in the list, or until the handler has been composed
and the tasks run. So whoever is told that its middleware was accepted has it in the chain of
every delivery.
-/

namespace DelayedQueue

inductive Call where
  | use (v : Middleware)
  | consume (base : Handler) (hasExecutor : Bool)

/-- What a call that holds the lock of an idle queue has still to do. -/
inductive Call.Rest where
  | push (v : Middleware)
  | compose (base : Handler)
  /-- Its handler has been composed. -/
  | spawn (base h : Handler)

namespace Queue

/-- A call that meets with no other one. -/
def call (q : Queue) : Call → Except ConsumeFault Unit × Queue
  | .use v => ((q.use v).1.mapError .refused, (q.use v).2)
  | .consume base hasExecutor => q.consume base hasExecutor

end Queue

/-- A queue with the calls that are being made on it. -/
structure Desk where
  queue : Queue
  /-- The calls that wait for the lock. -/
  waiting : List Call
  holder : Option Call.Rest
  /-- The calls that have returned, in this order, and their answers. -/
  answers : List (Call × Except Queue.ConsumeFault Unit)

namespace Desk

def opened (q : Queue) : Desk := ⟨q, [], none, []⟩

def answer (c : Call) (r : Except Queue.ConsumeFault Unit) (d : Desk) : Desk :=
  { d with answers := d.answers ++ [(c, r)] }

/-- The call has the lock. It keeps it if it finds what it needs, or else is refused at once. -/
def grant (d : Desk) (c : Call) : Desk :=
  match d.queue.lifecycle.state, c with
  | .idle, .use v => { d with holder := some (.push v) }
  | .idle, .consume base true => { d with holder := some (.compose base) }
  | _, c => d.answer c (d.queue.call c).1

/-- The next step of the call that holds the lock. -/
def goOn (d : Desk) : Desk :=
  match d.holder with
  | none => d
  | some (.push v) =>
    { d with
      queue := { d.queue with middleware := d.queue.middleware ++ [v] }
      holder := none }.answer (.use v) (.ok ())
  | some (.compose base) =>
    { d with holder := some (.spawn base (Handler.compose base d.queue.middleware)) }
  | some (.spawn base h) =>
    { d with queue := (d.queue.spawn h).2, holder := none }.answer (.consume base true)
      (d.queue.spawn h).1

inductive Event where
  | call (c : Call)
  /-- The lock falls to a call that waits for it. -/
  | enter (n : Nat)
  | goOn
  /-- Anything else that can happen to the queue. -/
  | other (e : Queue.Event)

/-- Closing looks at the life of the queue, too, when it begins and when it is over. -/
def takesLock : Queue.Event → Bool
  | .move (.close _) | .move (.step (.closer _)) => true
  | _ => false

/-- These go by steps of their own here. -/
def isCall : Queue.Event → Bool
  | .move (.use _) | .move (.consume ..) => true
  | _ => false

def act (d : Desk) : Event → Desk
  | .call c => { d with waiting := d.waiting ++ [c] }
  | .enter n =>
    match d.holder, d.waiting[n]? with
    | none, some c => { d with waiting := d.waiting.eraseIdx n }.grant c
    | _, _ => d
  | .goOn => d.goOn
  | .other e =>
    if isCall e || takesLock e && d.holder.isSome then d else { d with queue := d.queue.meet e }

def run (d : Desk) (es : List Event) : Desk := es.foldl act d

/-- The middlewares that have been accepted, in the order in which their calls returned. -/
def accepted (d : Desk) : List Middleware :=
  d.answers.filterMap fun
    | (.use v, .ok ()) => some v
    | _ => none

/-- What an event enters in the journal. -/
def news (d : Desk) (e : Event) : List Entry := Queue.newEntries d.queue (d.act e).queue

/-- Whether it is worker `i` that takes a step. -/
def Event.isTurn (i : Nat) : Event → Bool
  | .other e => e.isTurn i
  | _ => false

/-- What worker `i` tells in an event. -/
def tells (d : Desk) (i : Nat) (e : Event) : List (String × Report) :=
  if e.isTurn i then (d.news e).filterMap Entry.report? else []

/-- What worker `i` tells in a run. -/
def told (d : Desk) (i : Nat) : List Event → List (String × Report)
  | [] => []
  | e :: es => d.tells i e ++ (d.act e).told i es

variable {c : Config} {d : Desk} {e : Event} {call : Call} {base h : Handler} {v : Middleware}
  {r : Except Queue.ConsumeFault Unit} {i : Nat} {m : Message}

section Answers

theorem accepted_answer_use : (d.answer (.use v) (.ok ())).accepted = d.accepted ++ [v] :=
  List.filterMap_append

theorem accepted_answer_consume {x : Bool} : (d.answer (.consume base x) r).accepted = d.accepted :=
  List.filterMap_append.trans (List.append_nil _)

theorem accepted_answer_error {f : Queue.ConsumeFault} :
    (d.answer call (.error f)).accepted = d.accepted := by
  cases call <;> exact List.filterMap_append.trans (List.append_nil _)

theorem grant_of_ne (hi : d.queue.lifecycle.state ≠ .idle) :
    d.grant call = d.answer call (d.queue.call call).1 := by
  unfold grant
  split
  · next h => exact absurd h hi
  · next h => exact absurd h hi
  · rfl

theorem grant_use (hi : d.queue.lifecycle.state ≠ .idle) : d.grant (.use v) =
    d.answer (.use v) (.error (.refused (.alreadyConsuming d.queue.config.name))) := by
  rw [grant_of_ne hi]
  simp only [Queue.call, Queue.use, hi, if_false]
  rfl

/-- A call keeps the lock of an idle queue, or else it is refused. -/
theorem grant_cases (d : Desk) (call : Call) :
    (d.queue.lifecycle.state = .idle ∧
      ∃ rest, d.grant call = { d with holder := some rest } ∧ ∀ base h, rest ≠ .spawn base h) ∨
    ∃ f, d.grant call = d.answer call (.error f) := by
  by_cases hi : d.queue.lifecycle.state = .idle
  · match call with
    | .use v => exact .inl ⟨hi, .push v, by simp only [grant, hi], nofun⟩
    | .consume base true => exact .inl ⟨hi, .compose base, by simp only [grant, hi], nofun⟩
    | .consume base false =>
      refine .inr ?_
      simp only [grant, hi, Queue.call, Queue.consume, ne_eq, not_true_eq_false, if_false,
        Bool.not_false, if_true]
      exact ⟨_, rfl⟩
  · refine .inr ?_
    cases call with
    | use v => exact ⟨_, grant_use hi⟩
    | consume base hasExecutor =>
      rw [grant_of_ne hi]
      simp only [Queue.call, Queue.consume, ne_eq, hi, not_false_eq_true, if_true]
      exact ⟨_, rfl⟩

end Answers

section Tidy

/-- What holds of a desk whatever is called, and in whichever order. -/
structure Tidy (c : Config) (d : Desk) : Prop where
  config : d.queue.config = c
  orderly : ∃ ds, d.queue.outline.Orderly ds
  chain : d.queue.middleware = d.accepted
  /-- Nobody keeps the lock of a queue that is not idle. -/
  idle : ∀ rest, d.holder = some rest → d.queue.lifecycle.state = .idle
  /-- No middleware has been added since the handler was composed. -/
  composed : ∀ base h, d.holder = some (.spawn base h) →
    h = Handler.compose base d.queue.middleware
  begun : ∀ base x, (.consume base x, .ok ()) ∈ d.answers →
    d.queue.lifecycle.state ≠ .idle ∧
      d.queue.gear.handler = some (Handler.compose base d.accepted)

/-- A call that meets with no other one is the call that a queue has. -/
theorem enter_alone (hr : d.holder = none) (hw : d.waiting = [call]) :
    (d.act (.enter 0)).goOn.goOn = { d with
      queue := (d.queue.call call).2
      waiting := []
      answers := d.answers ++ [(call, (d.queue.call call).1)] } := by
  obtain ⟨q, waiting, holder, answers⟩ := d
  cases hr
  cases hw
  have hgrant : (⟨q, [call], none, answers⟩ : Desk).act (.enter 0) =
      (⟨q, [], none, answers⟩ : Desk).grant call := rfl
  rw [hgrant]
  by_cases hi : q.lifecycle.state = .idle
  · match call with
    | .use v =>
      simp only [grant, hi, goOn, answer, Queue.call, Queue.use, if_true]
      rfl
    | .consume base true =>
      simp only [grant, hi, goOn, ← Queue.consume_of_idle hi]
      rfl
    | .consume base false =>
      simp only [grant, hi, goOn, answer, Queue.call, Queue.consume, ne_eq, not_true_eq_false,
        if_false, Bool.not_false, if_true]
  · rw [grant_of_ne hi]
    cases call with
    | use v =>
      simp only [goOn, answer, Queue.call, Queue.use, hi, if_false]
    | consume base x =>
      simp only [goOn, answer, Queue.call, Queue.consume, ne_eq, hi, not_false_eq_true, if_true]

theorem lifecycle_meet {q : Queue} {ds : List Duration} (h : q.outline.Orderly ds)
    {e : Queue.Event} (hc : isCall e = false) (hl : takesLock e = false) :
    (q.meet e).lifecycle = q.lifecycle := by
  cases e with
  | outside k op => rfl
  | move m =>
    obtain ⟨o', ho, hstep⟩ : ∃ o', (q.move m).outline = o' ∧ q.outline.Step m o' :=
      ⟨_, rfl, Queue.move_step h.fits m⟩
    change (q.move m).outline.lifecycle = q.outline.lifecycle
    rw [ho]
    cases hstep with
    | consume => cases hc
    | close | shutDown | closed | late => cases hl
    | _ => rfl

theorem gear_meet {q : Queue} {e : Queue.Event} (hc : isCall e = false) :
    ∃ l, (q.meet e).gear = { q.gear with limiter := l } := by
  cases e with
  | outside k op => exact ⟨_, rfl⟩
  | move m =>
    by_cases hm : ∃ i, m = .step (.worker i)
    · obtain ⟨i, rfl⟩ := hm
      exact Queue.gear_step_worker i
    · refine ⟨_, Queue.gear_move (fun i hi => hm ⟨i, hi⟩) ?_ ?_⟩
      · rintro v rfl
        cases hc
      · rintro base x rfl
        cases hc

/-- An event is one of the queue, or does nothing to it. -/
theorem Tidy.act_queue (h : d.Tidy c) (e : Event) : (d.act e).queue = d.queue ∨
    ∃ e', (d.act e).queue = d.queue.meet e' ∧ (∀ i, e'.isTurn i = e.isTurn i) ∧
      (isCall e' = true → d.queue.lifecycle.state = .idle) := by
  cases e with
  | call call => exact .inl rfl
  | enter n =>
    refine .inl ?_
    simp only [act]
    split
    · rcases grant_cases { d with waiting := d.waiting.eraseIdx n } _ with
        ⟨-, rest, hr, -⟩ | ⟨f, hf⟩
      · rw [hr]
      · rw [hf]; rfl
    · rfl
  | goOn =>
    cases hr : d.holder with
    | none => exact .inl (by simp only [act, goOn, hr])
    | some rest =>
      have hi := h.idle rest hr
      cases rest with
      | push v =>
        refine .inr ⟨.move (.use v), ?_, fun i => rfl, fun _ => hi⟩
        simp only [act, goOn, hr, answer, Queue.meet, Queue.move, Queue.use, hi, if_true]
      | compose base => exact .inl (by simp only [act, goOn, hr])
      | spawn base f =>
        refine .inr ⟨.move (.consume base true), ?_, fun i => rfl, fun _ => hi⟩
        rw [h.composed base f hr] at hr
        simp only [act, goOn, hr, answer, ← Queue.consume_of_idle hi]
        rfl
  | other e =>
    simp only [act]
    split
    · exact .inl rfl
    · next hc =>
      refine .inr ⟨e, rfl, fun i => rfl, fun he => ?_⟩
      simp [he] at hc

theorem Tidy.act_of_meet {P : Queue → Prop} (h : d.Tidy c) (hq : P d.queue)
    (hm : ∀ e, P (d.queue.meet e)) (e : Event) : P (d.act e).queue := by
  rcases h.act_queue e with he | ⟨e', he, -⟩
  · exact he ▸ hq
  · exact he ▸ hm e'

theorem Tidy.orderly_act (h : d.Tidy c) (e : Event) :
    ∃ ds, (d.act e).queue.outline.Orderly ds := by
  obtain ⟨ds, ho⟩ := h.orderly
  exact h.act_of_meet (P := fun q => ∃ ds, q.outline.Orderly ds) ⟨ds, ho⟩ (Queue.orderly_meet ho) e

theorem Tidy.config_act (h : d.Tidy c) (e : Event) : (d.act e).queue.config = c :=
  h.act_of_meet (P := fun q => q.config = c) h.config
    (fun e' => (Queue.meet_follows e').config.trans h.config) e

theorem Tidy.refuse {f : Queue.ConsumeFault} (h : d.Tidy c) :
    (d.answer call (.error f)).Tidy c where
  config := h.config
  orderly := h.orderly
  chain := h.chain.trans accepted_answer_error.symm
  idle := h.idle
  composed := h.composed
  begun base x hm := by
    rw [accepted_answer_error]
    refine h.begun base x ((List.mem_append.mp hm).resolve_right fun hm => ?_)
    cases List.mem_singleton.mp hm

theorem Tidy.grant (h : d.Tidy c) (call : Call) : (d.grant call).Tidy c := by
  rcases grant_cases d call with ⟨hi, rest, hr, hs⟩ | ⟨f, hf⟩
  · rw [hr]
    exact {
      config := h.config
      orderly := h.orderly
      chain := h.chain
      idle := fun _ _ => hi
      composed := fun base f hf => absurd (Option.some.inj hf) (hs base f)
      begun := h.begun }
  · rw [hf]
    exact h.refuse

theorem Tidy.push (h : d.Tidy c) (hr : d.holder = some (.push v)) : d.goOn.Tidy c := by
  have hi := h.idle _ hr
  simp only [goOn, hr]
  exact {
    config := h.config
    orderly := h.orderly
    chain := by
      rw [accepted_answer_use]
      exact congrArg (· ++ [v]) h.chain
    idle := nofun
    composed := nofun
    begun := fun base x hm => by
      rcases List.mem_append.mp hm with hm | hm
      · exact absurd hi (h.begun base x hm).1
      · cases List.mem_singleton.mp hm }

/-- The chain that has been composed is the one of all that have been accepted. -/
theorem Tidy.spawn {f : Handler} (h : d.Tidy c) (hr : d.holder = some (.spawn base f)) :
    d.goOn.Tidy c := by
  have hi := h.idle _ hr
  have hqueue := h.config_act .goOn
  have horderly := h.orderly_act .goOn
  obtain rfl := h.composed base f hr
  simp only [act, goOn, hr, ← Queue.consume_of_idle hi] at hqueue horderly ⊢
  cases hc : (d.queue.consume base true).1 with
  | error f =>
    -- what may have been logged changes nothing that is kept here
    have hq : (d.queue.consume base true).2.outline = d.queue.outline ∧
        (d.queue.consume base true).2.gear = d.queue.gear := by
      rcases Queue.consume_error hc with hq | ⟨-, hq⟩ <;> rw [hq] <;> exact ⟨rfl, rfl⟩
    have hl : (d.queue.consume base true).2.lifecycle = d.queue.lifecycle :=
      congrArg Outline.lifecycle hq.1
    have hm : (d.queue.consume base true).2.middleware = d.queue.middleware :=
      congrArg Gear.middleware hq.2
    have h' : ({ d with queue := (d.queue.consume base true).2, holder := none } : Desk).Tidy c :=
      ⟨hqueue, horderly, hm.trans h.chain, nofun, nofun, fun base' x hb => by
        rw [hl, hq.2]
        exact h.begun base' x hb⟩
    exact h'.refuse
  | ok u =>
    have hs := (Queue.consume_ok hc).2
    obtain ⟨l, hg⟩ := hs.gear
    exact {
      config := hqueue
      orderly := horderly
      chain := by
        rw [accepted_answer_consume]
        exact hs.middleware.trans h.chain
      idle := nofun
      composed := nofun
      begun := fun base' x hb => by
        rw [accepted_answer_consume]
        rcases List.mem_append.mp hb with hb | hb
        · exact absurd hi (h.begun base' x hb).1
        · cases List.mem_singleton.mp hb
          constructor
          · change (d.queue.consume base true).2.lifecycle.state ≠ .idle
            rw [hs.lifecycle]
            decide
          · change (d.queue.consume base true).2.gear.handler =
              some (Handler.compose base d.accepted)
            rw [hg, h.chain] }

theorem Tidy.other (h : d.Tidy c) {e : Queue.Event} (hc : isCall e = false)
    (hl : takesLock e = true → d.holder = none) :
    ({ d with queue := d.queue.meet e } : Desk).Tidy c := by
  obtain ⟨ds, ho⟩ := h.orderly
  obtain ⟨l, hg⟩ := gear_meet (q := d.queue) hc
  have hm : (d.queue.meet e).middleware = d.queue.middleware := congrArg Gear.middleware hg
  exact {
    config := (Queue.meet_follows e).config.trans h.config
    orderly := Queue.orderly_meet ho e
    chain := hm.trans h.chain
    idle := fun rest hr => by
      have hl : takesLock e = false := by
        cases ht : takesLock e with
        | false => rfl
        | true => exact absurd hr (by simp [hl ht])
      rw [lifecycle_meet ho hc hl]
      exact h.idle rest hr
    composed := fun base f hr => by
      rw [hm]
      exact h.composed base f hr
    begun := fun base x hb => by
      obtain ⟨hi, hh⟩ := h.begun base x hb
      exact ⟨Queue.state_ne_idle_meet ho hi e, (congrArg Gear.handler hg).trans hh⟩ }

theorem Tidy.act (h : d.Tidy c) (e : Event) : (d.act e).Tidy c := by
  cases e with
  | call call => exact ⟨h.config, h.orderly, h.chain, h.idle, h.composed, h.begun⟩
  | enter n =>
    simp only [Desk.act]
    split
    · have h' : ({ d with waiting := d.waiting.eraseIdx n } : Desk).Tidy c :=
        ⟨h.config, h.orderly, h.chain, h.idle, h.composed, h.begun⟩
      exact h'.grant _
    · exact h
  | goOn =>
    cases hr : d.holder with
    | none =>
      simp only [Desk.act, goOn, hr]
      exact h
    | some rest =>
      cases rest with
      | push v => exact h.push hr
      | compose base =>
        have hi := h.idle _ hr
        simp only [Desk.act, goOn, hr]
        exact {
          config := h.config
          orderly := h.orderly
          chain := h.chain
          idle := fun _ _ => hi
          composed := fun base f hf => by cases hf; rfl
          begun := h.begun }
      | spawn base f => exact h.spawn hr
  | other e =>
    simp only [Desk.act]
    split
    · exact h
    · next hc =>
      simp only [Bool.or_eq_true, Bool.and_eq_true, not_or, not_and, Bool.not_eq_true,
        Option.isSome_eq_false_iff, Option.isNone_iff_eq_none] at hc
      exact h.other hc.1 hc.2

theorem Tidy.run (h : d.Tidy c) (es : List Event) : (d.run es).Tidy c := by
  induction es generalizing d with
  | nil => exact h
  | cons e es ih => exact ih (h.act e)

end Tidy

end Desk

end DelayedQueue
