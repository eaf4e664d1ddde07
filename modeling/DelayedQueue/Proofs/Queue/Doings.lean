import DelayedQueue.Proofs.Queue.Course

/-! # What a worker does in its turns

Notices and reports in the journal only tell of something. The rest has been done: a take, a message
handed to its handler, the end of the handler, a commit, and the observation of an outcome. Each
function of a worker is described by what it does of this, what it makes of the store, and where it
leaves the worker: a take draws, and hands over what it has drawn; a handler at work does none of
it; its end leaves the store alone; a success is committed; and every outcome is observed.
-/

namespace DelayedQueue

/-- Whether this has been done, and is not only told. -/
def Entry.isDoing : Entry → Bool
  | .notice _ | .report .. => false
  | _ => true

namespace Take

/-- The message that a take hands over. -/
def message? : Take → Option Message
  | .taken row => (Row.decode row).toOption
  | _ => none

def isExhausted : Take → Bool
  | .exhausted .. => true
  | _ => false

end Take

namespace Queue

variable {q q' : Queue} {s s' : Session} {w : Worker} {i : Nat} {m : Message} {d : Delivery}
  {t : Time} {o : Outcome} {p : Worker.Phase} {latency : Duration}

/-- What has been done, the latest first. -/
def record (q : Queue) : List (Instant × Entry) := q.journal.filter fun e => e.2.isDoing

/-- What is done between two states, in this order. -/
def doings (q q' : Queue) : List Entry := (newEntries q q').filter Entry.isDoing

theorem doings_of_record {l : List Entry} (h : q.journal <:+ q'.journal)
    (hr : q'.record = l.map (Prod.mk q.now) ++ q.record) : doings q q' = l.reverse :=
  filter_newEntries h hr

theorem doings_of_record_eq (h : q.journal <:+ q'.journal) (hr : q'.record = q.record) :
    doings q q' = [] :=
  doings_of_record (l := []) h hr

theorem mem_doings {e : Entry} (he : e.isDoing = true) : e ∈ doings q q' ↔ e ∈ newEntries q q' :=
  List.mem_filter.trans (and_iff_left he)

theorem setPhase_phase? (h : q.phase? i = some p) (p' : Worker.Phase) :
    (q.setPhase i p').phase? i = some p' :=
  phase?_of_put h outline_setPhase

section Take

/-- What a take at `now` draws, and the store after it. Nothing is drawn by a take that fails. -/
def draw (q : Queue) (now : Time) : Option Take × Store :=
  if (q.strike .take).1 then (none, q.store)
  else
    let drawn := q.store.takeOne q.keys q.config.retryInterval q.config.maxDeliveries now
    (some drawn.1, drawn.2)

/-- A poll of worker `i` at `now`, for the handler `h`, from one state to the other: the store is
what the take has made of it; the message that was drawn is handed over, or else nothing but
the take is done, and only one that drew an exhausted message lets the next poll come at once. -/
structure Polls (h : Handler) (i : Nat) (now : Time) (q q' : Queue) : Prop where
  store : q'.store = (q.draw now).2
  idle : (q.draw now).1.bind Take.message? = none →
    q'.record = (q.now, .attempted i) :: q.record ∧
      q'.phase? i = some (.looping ((q.draw now).1.any Take.isExhausted))
  busy : ∀ m, (q.draw now).1.bind Take.message? = some m →
    q'.record = (q.now, .invoked i m) :: (q.now, .attempted i) :: q.record ∧
      q'.phase? i = some (.handling ⟨m, h m, q.now, q.now.deadline q.config.consumeTimeout⟩)

theorem receive_polls (hp : q.phase? i = some p) (k : Take) :
    (q.receive s i k).store = q.store ∧
    (k.message? = none → (q.receive s i k).record = q.record ∧
      (q.receive s i k).phase? i = some (.looping k.isExhausted)) ∧
    ∀ m, k.message? = some m → (q.receive s i k).record = (q.now, .invoked i m) :: q.record ∧
      (q.receive s i k).phase? i = some (.handling
        ⟨m, s.handler m, q.now, q.now.deadline q.config.consumeTimeout⟩) := by
  have hn (n : Notice) : (q.notify n).phase? i = some p := hp
  have hm (m : Message) : (q.note (.invoked i m)).phase? i = some p := hp
  cases k with
  | empty =>
    exact ⟨rfl, fun _ => ⟨rfl, setPhase_phase? hp (.looping false)⟩, fun _ he => by cases he⟩
  | exhausted id n =>
    exact ⟨rfl, fun _ => ⟨rfl, setPhase_phase? (hn _) (.looping true)⟩, fun _ he => by cases he⟩
  | taken row =>
    simp only [receive, Take.message?]
    cases Row.decode row with
    | error f =>
      exact ⟨rfl, fun _ => ⟨rfl, setPhase_phase? (hn _) (.looping false)⟩, fun _ he => by cases he⟩
    | ok m =>
      refine ⟨rfl, fun he => absurd he (Option.some_ne_none m), fun m' he => ?_⟩
      cases he
      exact ⟨rfl, setPhase_phase? (hm m) _⟩

theorem takeFromStore_polls (hp : q.phase? i = some p) (now : Time) :
    let drawn := q.store.takeOne q.keys q.config.retryInterval q.config.maxDeliveries now
    (q.takeFromStore s i now).store = drawn.2 ∧
    (drawn.1.message? = none → (q.takeFromStore s i now).record = q.record ∧
      (q.takeFromStore s i now).phase? i = some (.looping drawn.1.isExhausted)) ∧
    ∀ m, drawn.1.message? = some m →
      (q.takeFromStore s i now).record = (q.now, .invoked i m) :: q.record ∧
      (q.takeFromStore s i now).phase? i = some (.handling
        ⟨m, s.handler m, q.now, q.now.deadline q.config.consumeTimeout⟩) := by
  intro drawn
  have hdrawn (n : Notice) : ({ q.notify n with store := drawn.2 } : Queue).phase? i = some p := hp
  have hdrawn' : ({ q with store := drawn.2 } : Queue).phase? i = some p := hp
  unfold takeFromStore
  cases q.space.danglingHead? with
  | none => exact receive_polls hdrawn' drawn.1
  | some id => exact receive_polls (hdrawn (.rowMissing id)) drawn.1

theorem takeAt_polls (hp : q.phase? i = some p) (hf : ∀ n, (.takePanic, n) ∉ q.faults.plan)
    (now : Time) : Polls s.handler i now q (q.takeAt s i now) := by
  have hunpanicked : (((q.note (.attempted i)).strike .take).2.strike .takePanic).1 = false :=
    Bool.eq_false_iff.mpr fun h => (mem_plan_of_strike h).elim fun n hn => hf n hn
  cases hs : (q.strike .take).1 with
  | true =>
    have hs' : ((q.note (.attempted i)).strike .take).1 = true := hs
    have hdraw : q.draw now = (none, q.store) := by rw [draw, hs, if_pos rfl]
    simp only [takeAt, hs', if_true]
    refine ⟨by rw [hdraw]; rfl, fun _ => ⟨rfl, ?_⟩, fun m hm => ?_⟩
    · rw [hdraw]
      exact setPhase_phase? (p := p) hp _
    · rw [hdraw] at hm
      cases hm
  | false =>
    have hs' : ((q.note (.attempted i)).strike .take).1 = false := hs
    have hp' : (((q.note (.attempted i)).strike .take).2.strike .takePanic).2.phase? i =
      some p := hp
    have hdraw : q.draw now = (fun drawn => (some drawn.1, drawn.2))
        (q.store.takeOne q.keys q.config.retryInterval q.config.maxDeliveries now) := by
      rw [draw, hs]
      rfl
    simp only [takeAt, hs', hunpanicked, Bool.false_eq_true, if_false]
    obtain ⟨hstore, hidle, hbusy⟩ := takeFromStore_polls (s := s) hp' now
    exact ⟨hdraw ▸ hstore, hdraw ▸ hidle, hdraw ▸ hbusy⟩

/-- Worker `i` takes, from one state to the other. The limiter and its ticker may have gone on. -/
def Takes (s : Session) (i : Nat) (q q' : Queue) : Prop :=
  ∃ s' now, s'.handler = s.handler ∧ s'.crew = s.crew ∧ q.wall = .ok now ∧
    q' = (q.setSession s').takeAt s' i now

/-- A worker that looks for a message takes, or does nothing. -/
def MayTake (s : Session) (i : Nat) (q q' : Queue) : Prop :=
  q'.record = q.record ∨ Takes s i q q'

theorem mayTake_take (hh : s'.handler = s.handler) (hc : s'.crew = s.crew) :
    MayTake s i q ((q.setSession s').take s' i) := by
  unfold take
  cases hw : (q.setSession s').wall with
  | error e => exact .inl rfl
  | ok now => exact .inr ⟨s', now, hh, hc, hw, rfl⟩

theorem mayTake_acquire (hh : s'.handler = s.handler) (hc : s'.crew = s.crew) :
    MayTake s i q ((q.setSession s').acquire s' i) := by
  unfold acquire
  split
  · exact mayTake_take hh hc
  · split
    · exact .inl rfl
    · simp only
      split
      · exact mayTake_take hh hc
      · exact .inl rfl

theorem setSession_self (h : q.session = some s) : q.setSession s = q := by
  rw [setSession, ← h]

theorem mayTake_stepWorker (hs : q.session = some s) (hw : s.workers[i]? = some w)
    (hp : w.phase.Waits) : MayTake s i q (q.stepWorker s i w) := by
  have hself := setSession_self hs
  unfold stepWorker
  generalize hph : w.phase = p at hp ⊢
  cases hp with
  | looping again =>
    simp only
    split
    · exact .inl rfl
    · split
      · have h := mayTake_acquire (q := q) (i := i) (rfl : s.handler = s.handler) rfl
        rwa [hself] at h
      · exact .inl rfl
  | ticking =>
    simp only
    split
    · exact .inl rfl
    · unfold tickWorker
      split
      · exact .inl rfl
      · have hc : s.crew.setPhase i w.phase = s.crew :=
          Crew.setPhase_self (by simp [Session.crew, hw])
        exact mayTake_acquire rfl ((Session.crew_setWorker i _).trans hc)
  | throttled due =>
    simp only
    split
    · exact .inl rfl
    · have h := mayTake_take (q := q) (i := i) (rfl : s.handler = s.handler) rfl
      rwa [hself] at h

theorem Takes.polls (h : Takes s i q q') (hs : q.session = some s) (hp : q.phase? i = some p)
    (hf : ∀ n, (.takePanic, n) ∉ q.faults.plan) :
    ∃ now, q.wall = .ok now ∧ Polls s.handler i now q q' := by
  obtain ⟨s', now, hh, hc, hw, rfl⟩ := h
  have ho : (q.setSession s').outline = q.outline :=
    outline_setSession_of_crew (by rw [outline_crew hs, hc])
  have hp' : (q.setSession s').phase? i = some p := by
    rw [← outline_phase?, ho, outline_phase?, hp]
  obtain ⟨hstore, hidle, hbusy⟩ := takeAt_polls (s := s') hp' hf now
  rw [hh] at hbusy
  exact ⟨now, hw, hstore, hidle, hbusy⟩

theorem meet_attempted (hf : q.lifecycle.Fits q.outline.crew) {e : Event}
    (h : .attempted i ∈ newEntries q (q.meet e)) : e.isTurn i = true ∧
      ∃ s p, q.session = some s ∧ q.phase? i = some p ∧ Takes s i q (q.meet e) := by
  have hsuffix := journal_suffix_meet (q := q) e
  rcases meet_deeds hf e with hd | ⟨j, c, p, p', es, rfl, hp, ht, hp', hd⟩
  · exact absurd h (not_mem_newEntries hsuffix hd rfl)
  · have hm := (mem_newEntries_iff hsuffix hd rfl).mp h
    obtain rfl : i = j := Option.some.inj (ht.worker? _ hm)
    have hwaits : p.Waits := by
      cases ht with
      | poll _ hp => exact hp
      | _ => simp at hm
    obtain ⟨s, w, hs, hw, rfl⟩ := exists_worker hp
    refine ⟨beq_self_eq_true i, s, _, hs, hp, ?_⟩
    have hmay : MayTake s i q (q.step (.worker i)) := by
      simp only [step, advance, hs, hw]
      split
      · refine mayTake_stepWorker hs ?_ hwaits
        rwa [worker?, hs] at hw
      · exact .inl rfl
    refine hmay.resolve_left fun hr => ?_
    have hnone := doings_of_record_eq hsuffix hr
    rw [← mem_doings rfl, hnone] at h
    cases h

end Take

section Handler

theorem record_setPhase (p : Worker.Phase) : (q.setPhase i p).record = q.record := rfl

theorem foldl_notify_eq (ns : List Notice) : ∃ l, ns.foldl notify q = { q with journal := l } ∧
    l.filter (fun e => e.2.isDoing) = q.record := by
  induction ns generalizing q with
  | nil => exact ⟨q.journal, rfl, rfl⟩
  | cons n ns ih =>
    obtain ⟨l, hl, hr⟩ := ih (q := q.notify n)
    exact ⟨l, hl, hr⟩

theorem record_produceAt (draft : Draft) : (q.produceAt draft t).2.record = q.record := by
  unfold produceAt
  simp only
  split
  · rfl
  · rfl

theorem record_redeliverAt (id : String) : (q.redeliverAt id t).2.record = q.record := by
  unfold redeliverAt
  simp only
  split
  · rfl
  · rfl

theorem record_produce {draft : Draft} {r : Except QueueError String}
    (h : q.produce draft = .ok (r, q')) : q'.record = q.record := by
  obtain ⟨now, -, hp⟩ := Row.map_eq_ok_iff.mp h
  have hq := record_produceAt (q := q) (t := now) draft
  rwa [hp] at hq

theorem record_redeliverAfter {id : String} {delay : Duration} {r : Except QueueError Bool}
    (h : q.redeliverAfter id delay = .ok (r, q')) : q'.record = q.record := by
  unfold redeliverAfter at h
  split at h
  · cases h; rfl
  · obtain ⟨now, -, hr⟩ := Row.map_eq_ok_iff.mp h
    split at hr
    · cases hr; rfl
    · next t _ =>
      have hq := record_redeliverAt (q := q) (t := t) id
      rwa [hr] at hq

/-- What a handler calls is not its worker's doing. -/
theorem record_proceed (hf : ∀ e, d.activity ≠ .finish e) :
    (q.proceed i d).record = q.record := by
  unfold proceed
  cases ha : d.activity with
  | finish e => exact absurd ha (hf e)
  | pause p rest =>
    simp only
    split
    · rfl
    · rfl
  | redeliverAfter id delay next =>
    simp only
    split
    · rfl
    · next h => exact (record_setPhase _).trans (record_redeliverAfter h)
  | redeliverAt id t next => exact record_redeliverAt id
  | produce draft next =>
    simp only
    split
    · rfl
    · next h => exact (record_setPhase _).trans (record_produce h)
  | hang | report | notify | store => rfl

/-- What ends a handler now: it can go on and has come to its own end, or it has to wait and its
deadline has come. -/
def EndsNow (q : Queue) (d : Delivery) (o : Outcome) : Prop :=
  if q.canProceed d then ∃ e, d.activity = .finish e ∧ o = (outcomeOf d.message e).1
  else d.deadline ≤ q.now ∧ o = lateOutcome q.config

theorem handle_effect (hd : q.phase? i = some (.handling d))
    (hr : (q.canProceed d || d.deadline ≤ q.now) = true) :
    (∃ a wake, d.activity.Leads a ∧ (q.handle i d).record = q.record ∧
      (q.handle i d).phase? i = some (.handling { d with activity := a, wake })) ∨
      ∃ o ns, q.EndsNow d o ∧ q.handle i d = q.endHandler i d.message o ns := by
  unfold handle EndsNow
  cases hp : q.canProceed d with
  | true =>
    simp only [if_true]
    by_cases hf : ∃ e, d.activity = .finish e
    · obtain ⟨e, he⟩ := hf
      simp only [proceed, he]
      exact .inr ⟨_, _, ⟨e, rfl, rfl⟩, rfl⟩
    · have hh : d.activity ≠ .hang := by
        intro he
        simp [canProceed, he] at hp
      obtain ⟨a, wake, hl, ho⟩ := proceed_leads (q := q) (i := i) (fun e he => hf ⟨e, he⟩) hh
      exact .inl ⟨a, wake, hl, record_proceed fun e he => hf ⟨e, he⟩, phase?_of_put hd ho⟩
  | false =>
    have hlate : d.deadline ≤ q.now := by simpa [hp] using hr
    simp only [Bool.false_eq_true, if_false]
    exact .inr ⟨_, _, ⟨hlate, rfl⟩, rfl⟩

theorem endHandler_effect (hp : q.phase? i = some p) (ns : List Notice) :
    (q.endHandler i m o ns).store = q.store ∧
    (q.endHandler i m o ns).record = (q.now, .ended i m o) :: q.record ∧
    ∀ t, q.wall = .ok t →
      (q.endHandler i m o ns).phase? i = some (.settling m (m.latency t) o) := by
  obtain ⟨l, hl, hr⟩ := foldl_notify_eq (q := q) ns
  have hrecord : (q.now, Entry.ended i m o) :: l.filter (fun e => e.2.isDoing) =
      (q.now, .ended i m o) :: q.record := by rw [hr]
  have hwall : (({ q with journal := l } : Queue).note (.ended i m o)).wall = q.wall := rfl
  have hp' : (({ q with journal := l } : Queue).note (.ended i m o)).phase? i = some p := hp
  simp only [endHandler, hl, hwall]
  cases q.wall with
  | error e => exact ⟨rfl, hrecord, fun t ht => by cases ht⟩
  | ok now =>
    refine ⟨rfl, hrecord, fun t ht => ?_⟩
    cases ht
    exact setPhase_phase? hp' _

theorem observe_effect (hp : q.phase? i = some p) (latency : Duration) {n : UInt64} (o : Outcome)
    (hq : q' = if q.observed then q.note (.observed latency n o) else q) :
    q'.store = q.store ∧ q'.phase? i = some p ∧ q'.record =
      List.map (Prod.mk q.now) (if q.observed then [.observed latency n o] else []) ++
        q.record := by
  have hp' : (q.note (.observed latency n o)).phase? i = some p := hp
  subst hq
  cases q.observed with
  | true => exact ⟨rfl, hp', rfl⟩
  | false => exact ⟨rfl, hp, rfl⟩

theorem commit_eq (hf : ∀ n, (.commit, n) ∉ q.faults.plan) (id : String) : q.commit i id =
    { (q.strike .commit).2 with store := (q.store.commit q.keys id).2 }.note (.committed i id) := by
  have hstruck : (q.strike .commit).1 = false :=
    Bool.eq_false_iff.mpr fun h => (mem_plan_of_strike h).elim fun n hn => hf n hn
  simp only [commit, hstruck, Bool.false_eq_true, if_false]
  rfl

theorem settle_effect (hp : q.phase? i = some p) (hf : ∀ n, (.commit, n) ∉ q.faults.plan) :
    (q.settle i m latency o).store =
      (if o = .success then (q.store.commit q.keys m.id).2 else q.store) ∧
    (q.settle i m latency o).record =
      List.map (Prod.mk q.now) ((if q.observed then [.observed latency m.deliveries o] else []) ++
        if o = .success then [.committed i m.id] else []) ++ q.record ∧
    (q.settle i m latency o).phase? i = some (.looping true) := by
  rw [List.map_append, List.append_assoc]
  cases o with
  | success =>
    have hp' : (q.commit i m.id).phase? i = some p := by
      rw [commit_eq hf]
      exact hp
    obtain ⟨hstore, hphase, hrecord⟩ := observe_effect hp' latency .success rfl
    refine ⟨hstore.trans ?_, hrecord.trans ?_, setPhase_phase? hphase _⟩
    · rw [commit_eq hf]
      rfl
    · rw [commit_eq hf]
      rfl
  | failed f =>
    have hp' : (q.notify (.leftForRetry i m.id m.deliveries.toNat f)).phase? i = some p := hp
    obtain ⟨hstore, hphase, hrecord⟩ := observe_effect hp' latency (.failed f) rfl
    exact ⟨hstore, hrecord, setPhase_phase? hphase _⟩

end Handler

end Queue

end DelayedQueue
