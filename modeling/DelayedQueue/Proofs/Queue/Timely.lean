import DelayedQueue.Proofs.Queue.Lifecycle
import DelayedQueue.Rehearsal.Clock

/-! # Time and tasks

Time goes on when the tasks let it: one that need not wait goes on before time does, and a timer
goes off a millisecond after it is due at the latest. So when a queue shuts down, its tasks and its
clock can go on only finitely often until a given instant has passed.
-/

namespace DelayedQueue

section Rest

/-- How many steps the daemon takes at most once the token is cancelled. -/
def Daemon.Phase.rest : Daemon.Phase → Nat
  | .fresh | .promoting _ => 2
  | .waiting => 1
  | .stopped | .broken => 0

theorem Daemon.Phase.Turn.rest_lt {p p' : Daemon.Phase} (h : Turn true p p') :
    p'.rest < p.rest := by
  cases h with
  | start => decide
  | stop => decide
  | tick hc => cases hc
  | tick_panic hc => cases hc
  | endPass total => exact Nat.one_lt_two
  | goOn _ _ hc => cases hc
  | promote_panic total => exact Nat.two_pos

def Closer.isWaiting : Closer → Bool
  | .waiting .. => true
  | .returned _ => false

/-- What is left to happen until `limit` has passed, apart from the steps of the workers. -/
def Outline.rest (limit : Instant) (o : Outline) : Nat :=
  (o.crew.elim 0 fun c => c.daemon.rest + if c.done then 0 else 1) +
    o.closers.countP Closer.isWaiting + (limit + 1 - o.now)

theorem acc_set {α : Type} {r : α → α → Prop} {l : List α} (h : ∀ a ∈ l, Acc r a) :
    Acc (fun l' l => ∃ i a a', l[i]? = some a ∧ r a' a ∧ l' = l.set i a') l := by
  induction l with
  | nil =>
    refine ⟨_, ?_⟩
    rintro l' ⟨i, a, a', hi, -⟩
    cases hi
  | cons a l ih =>
    have hl := ih fun b hb => h b (List.mem_cons_of_mem a hb)
    have ha := h a List.mem_cons_self
    clear h ih
    induction ha generalizing l with
    | intro a _ iha =>
      induction hl with
      | intro l hl ihl =>
        refine ⟨_, ?_⟩
        rintro l' ⟨i, b, b', hi, hr, rfl⟩
        cases i with
        | zero =>
          cases hi
          exact iha b' hr l ⟨l, hl⟩
        | succ i => exact ihl _ ⟨i, b, b', hi, hr, rfl⟩

end Rest

namespace Queue

/-- By how much a timer can be late. -/
def timerResolution : Duration := .ofMillis 1

/-- Time can go on to `t` if no task, where it is, could have gone on more than the resolution of a
timer before. One that waits for no timer could have at any time, and so goes on first. -/
def AwaitsTime (q : Queue) (t : Instant) : Prop :=
  ∀ (task : Task) (u : Instant), u + timerResolution.nanos < t →
    ({ q with now := u } : Queue).isReady task = false

/-- What the tasks say to an event. Only time has to wait for them. -/
def Allows (q : Queue) : Event → Prop
  | .move (.elapse d) => q.AwaitsTime (q.now + d.nanos)
  | _ => True

/-- In this run time waits for the tasks. -/
def Timely : Queue → List Event → Prop
  | _, [] => True
  | q, e :: es => q.Allows e ∧ Timely (q.meet e) es

/-- What can happen next when nobody calls. -/
inductive Continues (q : Queue) : Move → Prop where

  | step {t : Task} (hr : q.isReady t = true) : Continues q (.step t)

  | elapse {d : Duration} (hd : 0 < d.nanos) (ht : q.AwaitsTime (q.now + d.nanos)) :
      Continues q (.elapse d)

/-- When nobody calls, the queue comes to a good state, whichever task goes on first and as far as
time may go each time. -/
inductive Eventually (good : Queue → Prop) : Queue → Prop where

  | here {q : Queue} (h : good q) : Eventually good q

  | later {q : Queue} (he : ∃ m, q.Continues m)
      (h : ∀ m, q.Continues m → Eventually good (q.move m)) : Eventually good q

variable {q : Queue} {c : Crew} {m : Move} {t u : Instant}

section Readiness

theorem canProceed_mono {d : Delivery} (h : u ≤ t)
    (hr : ({ q with now := u } : Queue).canProceed d = true) :
    ({ q with now := t } : Queue).canProceed d = true := by
  unfold canProceed at hr ⊢
  split at hr
  · cases hr
  · exact decide_eq_true (Nat.le_trans (of_decide_eq_true hr) h)

theorem workerReady_mono {s : Session} {w : Worker} (h : u ≤ t)
    (hr : ({ q with now := u } : Queue).workerReady s w = true) :
    ({ q with now := t } : Queue).workerReady s w = true := by
  unfold workerReady at hr ⊢
  cases hp : w.phase with
  | fresh | looping | settling => rfl
  | stopped | broken => simp [hp] at hr
  | ticking | throttled =>
    simp only [hp, Ticker.isDue, Bool.or_eq_true, decide_eq_true_eq] at hr ⊢
    exact hr.imp_right fun hr => Nat.le_trans hr h
  | handling d =>
    simp only [hp, Bool.or_eq_true, decide_eq_true_eq] at hr ⊢
    exact hr.imp (canProceed_mono h) fun hr => Nat.le_trans hr h

theorem daemonReady_mono {s : Session} (h : u ≤ t)
    (hr : ({ q with now := u } : Queue).daemonReady s = true) :
    ({ q with now := t } : Queue).daemonReady s = true := by
  unfold daemonReady at hr ⊢
  cases hp : s.daemon.phase with
  | fresh | promoting => rfl
  | stopped | broken => simp [hp] at hr
  | waiting =>
    simp only [hp, Ticker.isDue, Bool.or_eq_true, decide_eq_true_eq] at hr ⊢
    exact hr.imp_right fun hr => Nat.le_trans hr h

theorem closerReady_mono {cl : Closer} (h : u ≤ t)
    (hr : ({ q with now := u } : Queue).closerReady cl = true) :
    ({ q with now := t } : Queue).closerReady cl = true := by
  cases cl with
  | returned r => cases hr
  | waiting d due =>
    simp only [closerReady, Bool.or_eq_true, decide_eq_true_eq] at hr ⊢
    exact hr.imp_right fun hr => Nat.le_trans hr h

theorem isReady_mono {task : Task} (h : u ≤ t)
    (hr : ({ q with now := u } : Queue).isReady task = true) :
    ({ q with now := t } : Queue).isReady task = true := by
  cases task with
  | supervisor => exact hr
  | daemon =>
    obtain ⟨s, hs, hr⟩ := (Option.any_eq_true _ _).mp hr
    exact (Option.any_eq_true _ _).mpr ⟨s, hs, daemonReady_mono h hr⟩
  | worker i =>
    have hw (v : Instant) : ({ q with now := v } : Queue).worker? i = q.worker? i := rfl
    simp only [isReady, hw] at hr ⊢
    split at hr
    · exact workerReady_mono h hr
    · cases hr
  | closer j =>
    obtain ⟨cl, hc, hr⟩ := (Option.any_eq_true _ _).mp hr
    exact (Option.any_eq_true _ _).mpr ⟨cl, hc, closerReady_mono h hr⟩

theorem exists_continues (q : Queue) : ∃ m, q.Continues m := by
  by_cases h : ∃ task, q.isReady task = true
  · obtain ⟨task, hr⟩ := h
    exact ⟨_, .step hr⟩
  · refine ⟨.elapse (.ofNanos 1), .elapse Nat.one_pos fun task u hu => ?_⟩
    refine Bool.eq_false_iff.mpr fun hr => h ⟨task, ?_⟩
    have hle : u ≤ q.now := Nat.le_of_lt_succ (Nat.lt_of_le_of_lt (Nat.le_add_right u _) hu)
    exact isReady_mono hle hr

theorem Continues.allows (h : q.Continues m) : q.Allows (.move m) := by
  cases h with
  | step => trivial
  | elapse _ ht => exact ht

end Readiness

section Decidable

theorem isReady_of_not_mem {task : Task} (h : task ∉ q.tasks) : q.isReady task = false := by
  refine Bool.eq_false_iff.mpr fun hr => h ?_
  unfold tasks
  cases task with
  | daemon => simp
  | supervisor => simp
  | worker i =>
    simp only [isReady] at hr
    split at hr
    · next s w hs hw =>
      have hw : s.workers[i]? = some w := by simpa only [worker?, hs] using hw
      simp [hs, (List.getElem?_eq_some_iff.mp hw).1]
    · cases hr
  | closer j =>
    obtain ⟨cl, hj, -⟩ := (Option.any_eq_true _ _).mp hr
    have hlen : j < q.closers.length := (List.getElem?_eq_some_iff.mp hj).1
    simp [hlen]

/-- It is enough to look at the last of the instants in question. -/
theorem awaitsTime_iff : q.AwaitsTime t ↔ t ≤ timerResolution.nanos ∨ ∀ task ∈ q.tasks,
    ({ q with now := t - timerResolution.nanos - 1 } : Queue).isReady task = false := by
  constructor
  · intro h
    refine (Nat.lt_or_ge timerResolution.nanos t).symm.imp_right fun hlt task _ => ?_
    exact h task _ (Nat.add_lt_of_lt_sub (Nat.sub_one_lt (Nat.sub_pos_of_lt hlt).ne'))
  · rintro (hle | h) task u hu
    · exact absurd hle (Nat.not_le.mpr (Nat.lt_of_le_of_lt (Nat.le_add_left _ u) hu))
    · by_cases hm : task ∈ q.tasks
      · refine Bool.eq_false_iff.mpr fun hr => ?_
        have hle : u ≤ t - timerResolution.nanos - 1 :=
          Nat.le_sub_one_of_lt (Nat.lt_sub_of_add_lt hu)
        exact absurd (isReady_mono hle hr) (Bool.eq_false_iff.mp (h task hm))
      · exact isReady_of_not_mem hm

instance (q : Queue) (t : Instant) : Decidable (q.AwaitsTime t) :=
  decidable_of_iff _ awaitsTime_iff.symm

instance (q : Queue) (e : Event) : Decidable (q.Allows e) :=
  match e with
  | .move (.elapse d) => inferInstanceAs (Decidable (q.AwaitsTime (q.now + d.nanos)))
  | .move (.produce _) | .move (.redeliverAt ..) | .move (.redeliverAfter ..) | .move (.use _)
  | .move (.consume ..) | .move (.close _) | .move (.step _) | .outside .. => isTrue trivial

instance decidableTimely : (q : Queue) → (es : List Event) → Decidable (q.Timely es)
  | _, [] => isTrue trivial
  | q, e :: es => @instDecidableAnd _ _ _ (decidableTimely (q.meet e) es)

end Decidable

section Progress

variable {limit : Instant}

theorem step_closer {j : Nat} (hr : q.isReady (.closer j) = true) :
    ∃ d due r, q.closers[j]? = some (.waiting d due) ∧
      (q.step (.closer j)).outline.crew = q.outline.crew ∧ (q.step (.closer j)).now = q.now ∧
      (q.step (.closer j)).closers = q.closers.set j (.returned r) := by
  obtain ⟨cl, hj, hc⟩ := (Option.any_eq_true _ _).mp hr
  cases cl with
  | returned r => cases hc
  | waiting d due =>
    have hstep : q.step (.closer j) = q.finishClose j d := by
      simp only [step, hr, if_true, advance, hj]
    rw [hstep]
    unfold finishClose
    split
    · exact ⟨d, due, _, hj, rfl, rfl, rfl⟩
    · exact ⟨d, due, _, hj, rfl, rfl, rfl⟩

/-- Once the token is cancelled either a worker takes a step, or less is left. -/
theorem Continues.progress (h : q.outline.crew = some c) (hc : c.cancelled = true)
    (hl : q.now ≤ limit) (hm : q.Continues m) :
    (∃ i p p', c.workers[i]? = some p ∧ p.Leads p' ∧
      (q.move m).outline.crew = some (c.setPhase i p')) ∨
    ∃ c', (q.move m).outline.crew = some c' ∧ c'.cancelled = true ∧ c'.workers = c.workers ∧
      (q.move m).outline.rest limit < q.outline.rest limit := by
  cases hm with
  | @elapse d hd =>
    refine .inr ⟨c, h, hc, rfl, Nat.add_lt_add_left ?_ _⟩
    exact Nat.sub_lt_sub_left (Nat.lt_succ_of_le hl) (Nat.lt_add_of_pos_right hd)
  | @step t hr =>
    cases t with
    | worker i =>
      obtain ⟨p, p', es, hi, hturn, ho⟩ := step_worker h hr
      rw [hc] at hturn
      refine .inl ⟨i, p, p', hi, ⟨_, _, _, hturn⟩, ?_⟩
      simp only [move, ho, Outline.put, h, Option.map_some]
    | daemon =>
      obtain ⟨p, hturn, ho⟩ := step_daemon h hr
      rw [hc] at hturn
      refine .inr ⟨{ c with daemon := p }, congrArg Outline.crew ho, hc, rfl, ?_⟩
      have hlt := hturn.rest_lt
      simp only [move, ho, Outline.rest, Outline.setCrew, h, Option.elim_some]
      omega
    | supervisor =>
      obtain ⟨hd, ho⟩ := step_supervisor h hr
      refine .inr ⟨{ c with done := true }, congrArg Outline.crew ho, hc, rfl, ?_⟩
      simp only [move, ho, Outline.rest, Outline.setCrew, h, Option.elim_some, hd]
      simp
    | closer j =>
      obtain ⟨d, due, r, hj, hcrew, hnow, hclosers⟩ := step_closer hr
      refine .inr ⟨c, hcrew.trans h, hc, rfl, ?_⟩
      have hlt : ((q.step (.closer j)).closers).countP Closer.isWaiting <
          q.closers.countP Closer.isWaiting := by
        have hpos : 0 < q.closers.countP Closer.isWaiting :=
          List.countP_pos_iff.mpr ⟨_, List.mem_of_getElem? hj, rfl⟩
        obtain ⟨hlen, hw⟩ := List.getElem?_eq_some_iff.mp hj
        rw [hclosers, List.countP_set hlen, hw]
        exact Nat.sub_lt hpos Nat.one_pos
      have hnow : (q.step (.closer j)).outline.now = q.outline.now := hnow
      simp only [move, Outline.rest, hcrew, hnow]
      exact Nat.add_lt_add_right (Nat.add_lt_add_left hlt _) _

/-- If time cannot pass `limit` before the queue is good, then with its token cancelled it comes to
be good. The steps of the workers come to an end, and between two of them there is less left each
time. -/
theorem eventually_of_invariant (limit : Instant) (inv : Queue → Prop) {good : Queue → Prop}
    (hstep : ∀ {q m}, inv q → q.Continues m → inv (q.move m))
    (hcancelled : ∀ {q}, inv q → ∃ c, q.outline.crew = some c ∧ c.cancelled = true)
    (hgood : ∀ {q}, inv q → limit < q.now → good q) (hq : inv q) : q.Eventually good := by
  obtain ⟨c, hcrew, hc⟩ := hcancelled hq
  have hacc := acc_set (l := c.workers) fun p _ => p.acc_leads
  generalize hws : c.workers = ws at hacc
  induction hacc generalizing q c with
  | intro ws _ ihworkers =>
    induction hn : q.outline.rest limit using Nat.strong_induction_on generalizing q c with
    | h n ihrest =>
      by_cases hl : limit < q.now
      · exact .here (hgood hq hl)
      · refine .later q.exists_continues fun m hm => ?_
        have hq' := hstep hq hm
        rcases hm.progress hcrew hc (Nat.le_of_not_lt hl) with
          ⟨i, p, p', hi, hleads, hcrew'⟩ | ⟨c', hcrew', hc', hw, hlt⟩
        · exact ihworkers _ ⟨i, p, p', hws ▸ hi, hleads, rfl⟩ hq' _ hcrew' hc (by rw [← hws]; rfl)
        · exact ihrest _ (hn ▸ hlt) hq' c' hcrew' hc' (hw.trans hws) rfl

end Progress

end Queue

end DelayedQueue
