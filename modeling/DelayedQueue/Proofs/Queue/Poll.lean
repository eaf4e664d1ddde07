import Mathlib.Data.Nat.Find
import Mathlib.Order.Monotone.Basic
import DelayedQueue.Proofs.Message.RoundTrip
import DelayedQueue.Proofs.Queue.Doings
import DelayedQueue.Proofs.Queue.Drain
import DelayedQueue.Proofs.Time.Span

/-! # One poll from its take to its end

A poll that draws nothing it can hand over is done with its take. A message that it hands over is in
the hands of its handler until this ends, for which the worker does nothing of its own but see
it end: by what the handler comes to, or at its deadline. Then it commits what succeeded, and has
the outcome observed.
-/

namespace DelayedQueue

theorem Space.redeliverAt_of_takeOne {s : Space} {retry : Duration} {cap : UInt64} {now : Time}
    {m : Message} (h : (s.takeOne retry cap now).1.message? = some m) :
    m.redeliverAt = some now.floorMillis := by
  cases hh : s.ready.head? with
  | none =>
    rw [Space.takeOne_of_nil (List.head?_eq_none_iff.mp hh)] at h
    cases h
  | some x =>
    have hpop := Space.pop_of_head retry cap now hh
    generalize (s.takeOne retry cap now).1 = k, (s.takeOne retry cap now).2.place x = p' at hpop h
    cases hpop with
    | dangling | exhausted => cases h
    | unreadable hr hf => simp [Take.message?, hf, Except.toOption] at h
    | delivered hr hm hlt =>
      simp only [Take.message?, Row.decode_encode, Except.toOption, Option.some.injEq] at h
      subst h
      rfl

namespace Queue

variable {q q' q'' : Queue} {i : Nat} {m : Message} {d : Delivery} {o : Outcome} {e : Event}
  {es : List Event} {ds : List Duration}

section Run

theorem live_append (es es' : List Event) : q.live (es ++ es') = (q.live es).live es' :=
  List.foldl_append

theorem now_le_live (h : q.outline.Orderly ds) (es : List Event) : q.now ≤ (q.live es).now := by
  refine outline_live (P := fun o => q.now ≤ o.now) (fun _ hs hle => ?_) h (Nat.le_refl _) es
  cases hs with
  | elapse d => exact Nat.le_trans hle (Nat.le_add_right _ _)
  | _ => exact hle

/-- What worker `i` does in an event, if it is its turn. -/
def does (q : Queue) (i : Nat) (e : Event) : List Entry :=
  if e.isTurn i then doings q (q.meet e) else []

/-- What worker `i` does in its turns, in this order. -/
def did (q : Queue) (i : Nat) : List Event → List Entry
  | [] => []
  | e :: es => q.does i e ++ (q.meet e).did i es

theorem did_append (es es' : List Event) :
    q.did i (es ++ es') = q.did i es ++ (q.live es).did i es' := by
  induction es generalizing q with
  | nil => rfl
  | cons e es ih =>
    calc q.does i e ++ (q.meet e).did i (es ++ es')
        = q.does i e ++ ((q.meet e).did i es ++ ((q.meet e).live es).did i es') := by rw [ih]
      _ = q.does i e ++ (q.meet e).did i es ++ ((q.meet e).live es).did i es' :=
        (List.append_assoc ..).symm

theorem does_of_not_turn (h : e.isTurn i = false) : q.does i e = [] := by
  rw [does, h]
  rfl

theorem does_of_record {l : List Entry} (h : e.isTurn i = true)
    (hr : (q.meet e).record = l.map (Prod.mk q.now) ++ q.record) : q.does i e = l.reverse := by
  rw [does, if_pos h]
  exact doings_of_record (journal_suffix_meet e) hr

theorem phase?_live {p : Worker.Phase} (h : q.outline.Orderly ds) (hp : q.phase? i = some p)
    (hn : ∀ e ∈ es, e.isTurn i = false) : (q.live es).phase? i = some p := by
  induction es generalizing q ds with
  | nil => exact hp
  | cons e es ih =>
    obtain ⟨ds', h'⟩ := orderly_meet h e
    exact ih h' (phase?_meet h.fits hp (hn e List.mem_cons_self))
      fun e' he' => hn e' (List.mem_cons_of_mem e he')

end Run

section Handler

theorem meet_turn {s : Session} {w : Worker} (hs : q.session = some s) (hw : q.worker? i = some w)
    (hr : q.workerReady s w = true) :
    q.meet (.move (.step (.worker i))) = q.stepWorker s i w := by
  simp only [meet, move, step, isReady, hs, hw, hr, if_true, advance]

theorem meet_turn_of_waiting {s : Session} {w : Worker} (hs : q.session = some s)
    (hw : q.worker? i = some w) (hr : q.workerReady s w = false) :
    q.meet (.move (.step (.worker i))) = q := by
  simp only [meet, move, step, isReady, hs, hw, hr]
  rfl

/-- The handler of worker `i` is at work in the next state too. It may have gone on, and has if its
deadline has come and it is its turn. -/
def StaysAtWork (q : Queue) (i : Nat) (d : Delivery) (e : Event) : Prop :=
  q.does i e = [] ∧ ∃ a wake,
    (q.meet e).phase? i = some (.handling { d with activity := a, wake }) ∧
    (a = d.activity ∨ d.activity.Leads a) ∧
    (e.isTurn i = true → d.deadline ≤ q.now → d.activity.Leads a)

/-- The handler of worker `i` ends with `o`. The store is left alone, and if the clock can be read
the worker has to deal with the outcome next. -/
structure Finishes (q : Queue) (i : Nat) (d : Delivery) (o : Outcome) (e : Event) : Prop where
  isTurn : e.isTurn i = true
  ends : q.EndsNow d o
  does : q.does i e = [.ended i d.message o]
  store : (q.meet e).store = q.store
  phase : ∀ t, q.wall = .ok t →
    (q.meet e).phase? i = some (.settling d.message (d.message.latency t) o)

theorem staysAtWork_of_phase? (hp : (q.meet e).phase? i = some (.handling d))
    (hd : q.does i e = []) (hl : e.isTurn i = true → d.deadline ≤ q.now → False) :
    q.StaysAtWork i d e :=
  ⟨hd, d.activity, d.wake, hp, .inl rfl, fun ht hdue => (hl ht hdue).elim⟩

theorem atWork_of_ready (hd : q.phase? i = some (.handling d))
    (hr : (q.canProceed d || d.deadline ≤ q.now) = true) (ht : e.isTurn i = true)
    (he : q.meet e = q.handle i d) : q.StaysAtWork i d e ∨ ∃ o, q.Finishes i d o e := by
  rcases handle_effect hd hr with ⟨a, wake, hl, hrecord, hp⟩ | ⟨o, ns, hends, hhandle⟩
  · rw [← he] at hrecord hp
    exact .inl ⟨does_of_record (l := []) ht hrecord, a, wake, hp, .inr hl, fun _ _ => hl⟩
  · obtain ⟨hstore, hrecord, hp⟩ := endHandler_effect (o := o) (m := d.message) hd ns
    rw [← hhandle, ← he] at hstore hrecord hp
    have hdoes := does_of_record (l := [.ended i d.message o]) ht hrecord
    exact .inr ⟨o, ht, hends, hdoes, hstore, hp⟩

/-- What one event does to a handler at work: it stays so, or it ends. -/
theorem meet_atWork (hf : q.lifecycle.Fits q.outline.crew) (hd : q.phase? i = some (.handling d))
    (e : Event) : q.StaysAtWork i d e ∨ ∃ o, q.Finishes i d o e := by
  by_cases ht : e.isTurn i = true
  · obtain rfl := eq_of_isTurn ht
    obtain ⟨s, w, hs, hw, hp⟩ := exists_worker hd
    by_cases hr : q.workerReady s w = true
    · have hready : (q.canProceed d || d.deadline ≤ q.now) = true := by
        simpa only [workerReady, hp] using hr
      exact atWork_of_ready hd hready ht (by rw [meet_turn hs hw hr, stepWorker, hp])
    · have hstep := meet_turn_of_waiting hs hw (Bool.eq_false_iff.mpr hr)
      refine .inl (staysAtWork_of_phase? (hstep.symm ▸ hd) ?_ fun _ hdue => hr ?_)
      · exact does_of_record (l := []) ht (congrArg record hstep)
      · simp [workerReady, hp, hdue]
  · have ht := Bool.eq_false_iff.mpr ht
    refine .inl (staysAtWork_of_phase? (phase?_meet hf hd ht) (does_of_not_turn ht) fun h => ?_)
    rw [ht] at h
    cases h

/-- While its worker does nothing of its own a handler stays at work, at what it has come to. -/
theorem atWork_live (h : q.outline.Orderly ds) (hd : q.phase? i = some (.handling d))
    (hn : q.did i es = []) : ∃ d', (q.live es).phase? i = some (.handling d') ∧
      d'.message = d.message ∧ d'.deadline = d.deadline ∧
      Relation.ReflTransGen Activity.Leads d.activity d'.activity := by
  induction es generalizing q ds d with
  | nil => exact ⟨d, hd, rfl, rfl, .refl⟩
  | cons e es ih =>
    obtain ⟨hdoes, hdid⟩ := List.append_eq_nil_iff.mp hn
    obtain ⟨ds', h'⟩ := orderly_meet h e
    rcases meet_atWork h.fits hd e with ⟨-, a, wake, hp, hl, -⟩ | ⟨o, hends⟩
    · obtain ⟨d', hd', hm, hdue, hl'⟩ := ih h' (d := { d with activity := a, wake }) hp hdid
      refine ⟨d', hd', hm, hdue, ?_⟩
      rcases hl with rfl | hl
      · exact hl'
      · exact .head hl hl'
    · rw [hends.does] at hdoes
      cases hdoes

theorem exists_course (h : q.outline.Orderly ds) (hd : q.phase? i = some (.handling d))
    (hn : q.did i es = []) : ∃ d', (q.live es).phase? i = some (.handling d') ∧
      d'.message = d.message ∧ d'.deadline = d.deadline ∧
      Relation.ReflTransGen Activity.Leads d.activity d'.activity ∧
      ∀ f, (q.live es).does i f = [] ∨ ∃ o, (q.live es).Finishes i d' o f := by
  obtain ⟨d', hd', hm, hdue, hl⟩ := atWork_live h hd hn
  obtain ⟨ds', h'⟩ := orderly_live h es
  exact ⟨d', hd', hm, hdue, hl, fun f => (meet_atWork h'.fits hd' f).imp_left And.left⟩

theorem did_of_hasEnded {p : Worker.Phase} (h : q.outline.Orderly ds) (hp : q.phase? i = some p)
    (he : p.HasEnded) (es : List Event) : q.did i es = [] := by
  induction es generalizing q ds with
  | nil => rfl
  | cons e es ih =>
    by_cases ht : e.isTurn i = true
    · obtain rfl := eq_of_isTurn ht
      obtain ⟨s, w, hs, hw, rfl⟩ := exists_worker hp
      have hready : q.workerReady s w = false := by
        rcases he with he | he <;> simp only [workerReady, he]
      have hstep := meet_turn_of_waiting hs hw hready
      rw [did, hstep, ih h hp, does_of_record (l := []) ht (congrArg record hstep)]
      rfl
    · have ht := Bool.eq_false_iff.mpr ht
      obtain ⟨ds', h'⟩ := orderly_meet h e
      rw [did, does_of_not_turn ht, ih h' (phase?_meet h.fits hp ht)]
      rfl

end Handler

section Progress

variable {f : Nat → Event} {n k : Nat}

/-- The first events of an unending run. -/
def upTo (f : Nat → Event) (n : Nat) : List Event := (List.range n).map f

theorem upTo_succ (f : Nat → Event) (n : Nat) : upTo f (n + 1) = upTo f n ++ [f n] := by
  simp [upTo, List.range_succ]

theorem live_upTo_succ (f : Nat → Event) (n : Nat) :
    q.live (upTo f (n + 1)) = (q.live (upTo f n)).meet (f n) := by
  rw [upTo_succ, live_append]
  rfl

theorem monotone_now (h : q.outline.Orderly ds) (f : Nat → Event) :
    Monotone fun n => (q.live (upTo f n)).now := by
  refine monotone_nat_of_le_succ fun n => ?_
  obtain ⟨ds', h'⟩ := orderly_live h (upTo f n)
  rw [live_upTo_succ]
  exact now_le_live h' [f n]

theorem did_upTo_succ (f : Nat → Event) (n : Nat) :
    q.did i (upTo f (n + 1)) = q.did i (upTo f n) ++ (q.live (upTo f n)).does i (f n) := by
  rw [upTo_succ, did_append]
  simp only [did, List.append_nil]

/-- At this point of an unending run the handler that was at `d` at first is at work, and is at `d'`
by now. -/
structure AtWork (q : Queue) (i : Nat) (f : Nat → Event) (d d' : Delivery) (n : Nat) : Prop where
  did : q.did i (upTo f n) = []
  phase : (q.live (upTo f n)).phase? i = some (.handling d')
  message : d'.message = d.message
  deadline : d'.deadline = d.deadline

theorem exists_atWork (h : q.outline.Orderly ds) (hd : q.phase? i = some (.handling d))
    (hn : q.did i (upTo f n) = []) : ∃ d', q.AtWork i f d d' n := by
  obtain ⟨d', hp, hm, hdue, -⟩ := atWork_live h hd hn
  exact ⟨d', hn, hp, hm, hdue⟩

theorem did_or_ended (h : q.outline.Orderly ds) (hd : q.phase? i = some (.handling d))
    (f : Nat → Event) (n : Nat) : q.did i (upTo f n) = [] ∨
      ∃ n o, q.did i (upTo f n) = [.ended i d.message o] := by
  induction n with
  | zero => exact .inl rfl
  | succ n ih =>
    refine ih.elim (fun hn => ?_) .inr
    obtain ⟨d', hw⟩ := exists_atWork h hd hn
    obtain ⟨ds', h'⟩ := orderly_live h (upTo f n)
    rcases meet_atWork h'.fits hw.phase (f n) with ⟨hdoes, -⟩ | ⟨o, hends⟩
    · exact .inl (by rw [did_upTo_succ, hn, hdoes, List.nil_append])
    · refine .inr ⟨n + 1, o, ?_⟩
      rw [did_upTo_succ, hn, hends.does, hw.message, List.nil_append]

namespace AtWork

variable {d' : Delivery}

theorem waits (hw : q.AtWork i f d d' n) (h : q.outline.Orderly ds)
    (hn : ∀ j < k, (f (n + j)).isTurn i = false) : q.AtWork i f d d' (n + k) := by
  induction k with
  | zero => exact hw
  | succ k ih =>
    have hk := ih fun j hj => hn j (Nat.lt_succ_of_lt hj)
    have ht := hn k (Nat.lt_succ_self k)
    obtain ⟨ds', h'⟩ := orderly_live h (upTo f (n + k))
    refine ⟨?_, ?_, hw.message, hw.deadline⟩
    · rw [← Nat.add_assoc, did_upTo_succ, hk.did, does_of_not_turn ht, List.append_nil]
    · rw [← Nat.add_assoc, live_upTo_succ]
      exact phase?_meet h'.fits hk.phase ht

theorem turn (hw : q.AtWork i f d d' n) (h : q.outline.Orderly ds)
    (hdue : d.deadline ≤ (q.live (upTo f n)).now) (ht : (f n).isTurn i = true) :
    (∃ d'', q.AtWork i f d d'' (n + 1) ∧ d'.activity.Leads d''.activity) ∨
      ∃ o, q.did i (upTo f (n + 1)) = [.ended i d.message o] := by
  obtain ⟨ds', h'⟩ := orderly_live h (upTo f n)
  rcases meet_atWork h'.fits hw.phase (f n) with ⟨hdoes, a, wake, hp, -, hl⟩ | ⟨o, hends⟩
  · refine .inl ⟨{ d' with activity := a, wake }, ⟨?_, ?_, hw.message, hw.deadline⟩,
      hl ht (hw.deadline ▸ hdue)⟩
    · rw [did_upTo_succ, hw.did, hdoes, List.nil_append]
    · rw [live_upTo_succ]
      exact hp
  · refine .inr ⟨o, ?_⟩
    rw [did_upTo_succ, hw.did, hends.does, hw.message, List.nil_append]

end AtWork

/-- A handler whose deadline comes ends, if its worker takes its turns again and again. -/
theorem exists_ended (h : q.outline.Orderly ds) (hd : q.phase? i = some (.handling d))
    (hfair : ∀ n, ∃ k, (f (n + k)).isTurn i = true)
    (hlate : ∃ n, d.deadline ≤ (q.live (upTo f n)).now) :
    ∃ n o, q.did i (upTo f n) = [.ended i d.message o] := by
  have hleads (a : Activity) : ∀ n d', d'.activity = a → q.AtWork i f d d' n →
      d.deadline ≤ (q.live (upTo f n)).now →
      ∃ n o, q.did i (upTo f n) = [.ended i d.message o] := by
    induction a.acc_leads with
    | intro a _ ih =>
      rintro n d' rfl hw hdue
      have hk := Nat.find_spec (hfair n)
      have hw' := hw.waits h fun j hj => Bool.eq_false_iff.mpr (Nat.find_min (hfair n) hj)
      generalize Nat.find (hfair n) = k at hk hw'
      have hdue' (j : Nat) : d.deadline ≤ (q.live (upTo f (n + j))).now :=
        Nat.le_trans hdue (monotone_now h f (Nat.le_add_right n j))
      rcases hw'.turn h (hdue' k) hk with ⟨d'', hw'', hl⟩ | ⟨o, ho⟩
      · exact ih _ hl _ d'' rfl hw'' (hdue' (k + 1))
      · exact ⟨_, o, ho⟩
  obtain ⟨n, hdue⟩ := hlate
  refine (did_or_ended h hd f n).elim (fun hn => ?_) id
  obtain ⟨d', hw⟩ := exists_atWork h hd hn
  exact hleads _ n d' rfl hw hdue

end Progress

section Outcome

variable {latency : Duration} {observed : Bool} {s : Session} {now t : Time} {e' : Event}

/-- In its turn worker `i` deals with an outcome: the store is changed by one commit of the message
if its handler has succeeded, and not at all otherwise; if there is an observer the outcome is
observed, once; and the next poll need not wait. -/
structure Settles (q : Queue) (i : Nat) (m : Message) (latency : Duration) (o : Outcome)
    (observed : Bool) (e : Event) : Prop where
  store : (q.meet e).store = if o = .success then (q.store.commit q.keys m.id).2 else q.store
  does : q.does i e = (if o = .success then [.committed i m.id] else []) ++
    if observed then [.observed latency m.deliveries o] else []
  phase : (q.meet e).phase? i = some (.looping true)

theorem meet_settling (hp : q.phase? i = some (.settling m latency o))
    (hf : ∀ n, (.commit, n) ∉ q.faults.plan) (ht : e.isTurn i = true) :
    q.Settles i m latency o q.observed e := by
  obtain rfl := eq_of_isTurn ht
  obtain ⟨s, w, hs, hw, hph⟩ := exists_worker hp
  have hstep : q.meet (.move (.step (.worker i))) = q.settle i m latency o := by
    rw [meet_turn hs hw (by simp only [workerReady, hph]), stepWorker, hph]
  obtain ⟨hstore, hrecord, hphase⟩ := settle_effect hp hf
  rw [← hstep] at hstore hrecord hphase
  refine ⟨hstore, (does_of_record ht hrecord).trans ?_, hphase⟩
  rw [List.reverse_append]
  congr 1
  · split <;> rfl
  · split <;> rfl

/-- Whatever happens after the end of a handler, its worker deals with the outcome next. -/
theorem Finishes.settles (h : q.Finishes i d o e) (ho : q.outline.Orderly ds)
    (hw : q.wall = .ok t) (hf : ∀ n, (.commit, n) ∉ q.faults.plan)
    (hn : ∀ e' ∈ es, e'.isTurn i = false) (ht : e'.isTurn i = true) :
    ((q.meet e).live es).Settles i d.message (d.message.latency t) o q.observed e' := by
  obtain ⟨ds', ho'⟩ := orderly_meet ho e
  have hsettling := phase?_live ho' (h.phase t hw) hn
  have hsetting : ((q.meet e).live es).setting = q.setting := (follows_true (e :: es)).setting
  have hplan : ((q.meet e).live es).faults.plan = q.faults.plan :=
    congrArg Setting.plan hsetting
  have hobserved : ((q.meet e).live es).observed = q.observed :=
    congrArg Setting.observed hsetting
  exact hobserved ▸ meet_settling hsettling (hplan.symm ▸ hf) ht

theorem redeliverAt_of_draw (h : (q.draw now).1.bind Take.message? = some m) :
    m.redeliverAt = some now.floorMillis := by
  unfold draw at h
  split at h
  · cases h
  · have h : (q.store.takeOne q.keys q.config.retryInterval
      q.config.maxDeliveries now).1.message? = some m := h
    rw [Store.takeOne_fst] at h
    exact Space.redeliverAt_of_takeOne h

theorem latency_nanos (hm : m.redeliverAt = some now.floorMillis) (hw : q.wall = .ok now)
    (ht : q'.wall = .ok t) (hb : q'.begun = q.begun) (hle : q.now ≤ q'.now) :
    ((m.latency t).nanos : Int) = t.nanos - now.floorMillis.nanos := by
  have hnow := nanos_of_wall hw
  have hlater := nanos_of_wall ht
  have hfloor : now.floorMillis.nanos ≤ now.nanos := by
    simp only [Time.floorMillis, Time.millis]
    omega
  have hsince : m.dueSince = now.floorMillis := by
    rw [Message.dueSince, hm]
    rfl
  have hle : ((q.now : Nat) : Int) ≤ (q'.now : Nat) := Int.ofNat_le.mpr hle
  rw [hb] at hlater
  rw [Message.latency, hsince, Time.nanos_since (leap_of_wall ht) rfl]
  simp only [Clocks.nanosAt] at hnow hlater
  omega

end Outcome

section Reachable

variable {c : Config} {faults : Faults} {begun : Clocks} {ids : MessageId.Source} {observed : Bool}
  {p : Queue} {before : List Event}

theorem setting_live (hq : Queue.new c faults begun ids observed = .ok q) (es : List Event) :
    (q.live es).setting = ⟨c, faults.plan, begun, ids, observed⟩ := by
  rw [(follows_true es).setting]
  obtain rfl := eq_of_new hq
  rfl

/-- A poll at any point of any run, whatever the handler does. To the store it does what its take
does. If this fails, finds nothing, or finds a message that has used up its deliveries or a row that
cannot be read, the worker has done nothing else, and polls again at once only if a message was used
up. A message that is handed over begins to be handled, and until its handler ends its worker does
nothing else. The handler ends, if its deadline comes and the worker takes its turns, by what it
comes to or at its deadline. This leaves the store alone; and if the clock can be read at that
instant, then in its next turn, whatever has happened in between, the worker commits the message if
its handler has succeeded, and has the outcome observed if there is an observer, with the latency
from the time of the take in whole milliseconds to the end of the handler. -/
theorem one_poll (hq : Queue.new c faults begun ids observed = .ok q)
    (hcommit : ∀ n, (.commit, n) ∉ faults.plan) (hpanic : ∀ n, (.takePanic, n) ∉ faults.plan)
    (hp : q.live before = p) (he : .attempted i ∈ newEntries p (p.meet e)) :
    ∃ s now, p.session = some s ∧ p.wall = .ok now ∧ (p.meet e).store = (p.draw now).2 ∧
      ((p.draw now).1.bind Take.message? = none → p.does i e = [.attempted i] ∧
        (p.meet e).phase? i = some (.looping ((p.draw now).1.any Take.isExhausted))) ∧
      ∀ m, (p.draw now).1.bind Take.message? = some m →
        p.does i e = [.attempted i, .invoked i m] ∧
        (p.meet e).phase? i = some (.handling
          ⟨m, s.handler m, p.now, p.now.deadline c.consumeTimeout⟩) ∧
        (∀ f : Nat → Event, (∀ n, ∃ k, (f (n + k)).isTurn i = true) →
          (∃ n, p.now.deadline c.consumeTimeout ≤ ((p.meet e).live (upTo f n)).now) →
          ∃ n o, (p.meet e).did i (upTo f n) = [.ended i m o]) ∧
        ∀ during r, (p.meet e).live during = r → (p.meet e).did i during = [] →
          ∃ d, r.phase? i = some (.handling d) ∧ d.message = m ∧
            d.deadline = p.now.deadline c.consumeTimeout ∧
            Relation.ReflTransGen Activity.Leads (s.handler m) d.activity ∧
            ∀ f, r.does i f = [] ∨ ∃ o, r.Finishes i d o f ∧
              ∀ t, r.wall = .ok t → ∃ latency : Duration,
                (latency.nanos : Int) = t.nanos - now.floorMillis.nanos ∧
                ∀ between u g, (r.meet f).live between = u →
                  (∀ e' ∈ between, e'.isTurn i = false) → g.isTurn i = true →
                  u.Settles i m latency o observed g := by
  obtain ⟨ds, hop⟩ : ∃ ds, p.outline.Orderly ds := hp ▸ orderly_live (orderly_new hq) before
  have hset (es : List Event) : (p.live es).setting = ⟨c, faults.plan, begun, ids, observed⟩ :=
    (follows_true es).setting.trans (hp ▸ setting_live hq before)
  have hconfig : p.config = c := congrArg Setting.config (hset [])
  have hplan : p.faults.plan = faults.plan := congrArg Setting.plan (hset [])
  obtain ⟨hturn, s, ph, hs, hph, htakes⟩ := meet_attempted hop.fits he
  obtain ⟨now, hw, hpolls⟩ := htakes.polls hs hph (hplan.symm ▸ hpanic)
  refine ⟨s, now, hs, hw, hpolls.store, fun hnone => ?_, fun m hm => ?_⟩
  · obtain ⟨hrecord, hphase⟩ := hpolls.idle hnone
    exact ⟨does_of_record (l := [.attempted i]) hturn hrecord, hphase⟩
  obtain ⟨hrecord, hphase⟩ := hpolls.busy m hm
  rw [hconfig] at hphase
  obtain ⟨ds₁, hop₁⟩ := orderly_meet hop e
  refine ⟨does_of_record (l := [.invoked i m, .attempted i]) hturn hrecord, hphase,
    fun f => exists_ended hop₁ hphase, ?_⟩
  rintro during r rfl hdid
  obtain ⟨ds₂, hop₂⟩ := orderly_live hop₁ during
  have hset₂ := hset (e :: during)
  obtain ⟨d, hd, rfl, hdue, hleads, hends⟩ := exists_course hop₁ hphase hdid
  refine ⟨d, hd, rfl, hdue, hleads, fun f => (hends f).imp_right fun ⟨o, hends⟩ => ?_⟩
  refine ⟨o, hends, fun t ht => ⟨d.message.latency t, ?_, ?_⟩⟩
  · have hbegun : ((p.meet e).live during).begun = p.begun :=
      congrArg Setting.begun (hset₂.trans (hset []).symm)
    exact latency_nanos (redeliverAt_of_draw hm) hw ht hbegun (now_le_live hop (e :: during))
  · rintro between u g rfl hbetween hg
    have hplan₂ : ((p.meet e).live during).faults.plan = faults.plan :=
      congrArg Setting.plan hset₂
    have hobserved : ((p.meet e).live during).observed = observed :=
      congrArg Setting.observed hset₂
    exact hobserved ▸ hends.settles hop₂ ht (hplan₂.symm ▸ hcommit) hbetween hg

def observedQueue : Queue := { soloQueue with observed := true }

/-- The worker is about to take a message, whose handler will pause. -/
def expectant : List Event := (pausing.take 4).map .move

def nextTurn : Event := .move (.step (.worker 0))

/-- The handler pauses. -/
def pausedFor : List Event := [nextTurn, .move (.elapse (.ofMillis 20))]

/-- Worker 0 takes. -/
def attempts : Entry → Bool
  | .attempted 0 => true
  | _ => false

theorem attempted_mem {es : List Entry} (h : es.any attempts = true) : .attempted 0 ∈ es := by
  obtain ⟨e, he, ha⟩ := List.any_eq_true.mp h
  unfold attempts at ha
  split at ha
  · exact he
  · cases ha

/-- The handler returns twenty milliseconds after the take. -/
theorem one_poll_paused : ∃ p : Queue,
    Queue.new {} .none ⟨.epoch, 0⟩ ⟨0, 0⟩ true = .ok observedQueue ∧
    (∀ n, (.commit, n) ∉ Faults.none.plan) ∧ (∀ n, (.takePanic, n) ∉ Faults.none.plan) ∧
    observedQueue.live expectant = p ∧ .attempted 0 ∈ newEntries p (p.meet nextTurn) ∧
    ∃ m latency, p.does 0 nextTurn = [.attempted 0, .invoked 0 m] ∧
      ((p.meet nextTurn).live pausedFor).does 0 nextTurn = [.ended 0 m .success] ∧
      (latency.nanos : Int) = 20000000 ∧
      (((p.meet nextTurn).live pausedFor).meet nextTurn).Settles 0 m latency .success true
        nextTurn := by
  have hq : Queue.new {} .none ⟨.epoch, 0⟩ ⟨0, 0⟩ true = .ok observedQueue := rfl
  have hcommit : ∀ n, (.commit, n) ∉ Faults.none.plan := fun n => List.not_mem_nil
  have hpanic : ∀ n, (.takePanic, n) ∉ Faults.none.plan := fun n => List.not_mem_nil
  obtain ⟨p, hp⟩ : ∃ p, observedQueue.live expectant = p := ⟨_, rfl⟩
  obtain ⟨hattempt, hwall, hdrawn, hdid, hsucceeds, hend⟩ :
      (newEntries p (p.meet nextTurn)).any attempts = true ∧
      p.wall.toOption.map Time.nanos = some 0 ∧
      ((p.draw .epoch).1.bind Take.message?).isSome = true ∧
      ((p.meet nextTurn).did 0 pausedFor).isEmpty = true ∧
      (((p.meet nextTurn).live pausedFor).does 0 nextTurn).any
        (Entry.succeeds (MessageId.Source.id ⟨0, 0⟩ 0)) = true ∧
      ((p.meet nextTurn).live pausedFor).wall.toOption.map Time.nanos = some 20000000 := by
    rw [← hp]
    decide +kernel
  have he := attempted_mem hattempt
  obtain ⟨s, now, -, hnow, -, -, hhanded⟩ := one_poll hq hcommit hpanic hp he
  rw [hnow] at hwall
  obtain rfl : now = .epoch := Time.ext_nanos (Option.some.inj hwall) (leap_of_wall hnow)
  obtain ⟨m, hm⟩ := Option.isSome_iff_exists.mp hdrawn
  obtain ⟨hdoes, -, -, hcourse⟩ := hhanded m hm
  obtain ⟨d, -, rfl, -, -, hnext⟩ := hcourse pausedFor _ rfl (List.isEmpty_iff.mp hdid)
  rcases hnext nextTurn with hnone | ⟨o, hends, hlater⟩
  · rw [hnone] at hsucceeds
    cases hsucceeds
  rw [hends.does] at hsucceeds
  obtain rfl : o = .success := by
    cases o with
    | success => rfl
    | failed f => cases hsucceeds
  cases hread : ((p.meet nextTurn).live pausedFor).wall with
  | error e =>
    rw [hread] at hend
    cases hend
  | ok t =>
    rw [hread] at hend
    have ht : t.nanos = 20000000 := Option.some.inj hend
    obtain ⟨latency, hlatency, hsettles⟩ := hlater t hread
    refine ⟨p, hq, hcommit, hpanic, hp, he, d.message, latency, hdoes, hends.does, ?_,
      hsettles [] _ nextTurn rfl (fun e he => absurd he List.not_mem_nil) rfl⟩
    rw [hlatency, ht]
    rfl

/-- The wall clock comes to its end while the handler pauses. -/
def lateObserved : Queue := { lateQueue with observed := true }

/-- A worker that cannot read the clock when its handler returns never commits the message. -/
theorem success_uncommitted : ¬ ∀ (c : Config) (faults : Faults) (begun : Clocks)
    (ids : MessageId.Source) (observed : Bool) (q p r : Queue) (before during : List Event)
    (e f : Event) (i : Nat) (x : String), Queue.new c faults begun ids observed = .ok q →
    (∀ n, (.commit, n) ∉ faults.plan) → (∀ n, (.takePanic, n) ∉ faults.plan) →
    q.live before = p → .attempted i ∈ newEntries p (p.meet e) → (p.meet e).live during = r →
    (p.meet e).did i during = [] → (r.does i f).any (Entry.succeeds x) = true →
    ∃ es, ((r.meet f).did i es).any (Entry.commits x) = true := by
  intro hall
  have hq : Queue.new {} .none ⟨lastMoments, 0⟩ ⟨0, 0⟩ true = .ok lateObserved := rfl
  obtain ⟨p, hp⟩ : ∃ p, lateObserved.live expectant = p := ⟨_, rfl⟩
  obtain ⟨hattempt, hdid, hsucceeds, hended⟩ :
      (newEntries p (p.meet nextTurn)).any attempts = true ∧
      ((p.meet nextTurn).did 0 pausedFor).isEmpty = true ∧
      (((p.meet nextTurn).live pausedFor).does 0 nextTurn).any
        (Entry.succeeds (MessageId.Source.id ⟨0, 0⟩ 0)) = true ∧
      ((((p.meet nextTurn).live pausedFor).meet nextTurn).worker? 0).any Worker.hasEnded =
        true := by
    rw [← hp]
    decide +kernel
  obtain ⟨es, hes⟩ := hall _ _ _ _ _ lateObserved p _ expectant pausedFor nextTurn nextTurn 0 _ hq
    (fun _ => List.not_mem_nil) (fun _ => List.not_mem_nil) hp (attempted_mem hattempt) rfl
    (List.isEmpty_iff.mp hdid) hsucceeds
  obtain ⟨ds, ho⟩ : ∃ ds,
      (((p.meet nextTurn).live pausedFor).meet nextTurn).outline.Orderly ds := by
    have h := orderly_live (orderly_new hq) (expectant ++ nextTurn :: pausedFor ++ [nextTurn])
    rw [live_append, live_append, hp] at h
    exact h
  cases hw : (((p.meet nextTurn).live pausedFor).meet nextTurn).worker? 0 with
  | none =>
    rw [hw] at hended
    cases hended
  | some w =>
    rw [hw] at hended
    have hp' : (((p.meet nextTurn).live pausedFor).meet nextTurn).phase? 0 = some w.phase := by
      rw [phase?, hw]
      rfl
    rw [did_of_hasEnded ho hp' (w.hasEnded_iff.mp hended)] at hes
    cases hes

end Reachable

end Queue

end DelayedQueue
