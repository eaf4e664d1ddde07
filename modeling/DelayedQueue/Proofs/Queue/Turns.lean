import DelayedQueue.Proofs.Queue.Poll
import DelayedQueue.Proofs.Queue.Promotion
import DelayedQueue.Proofs.Queue.Range

/-! # A worker that has the queue to itself

One worker takes its turns, with time passing between them, and nothing else happens. If the queue
has no rate limit and is not shut down, the worker waits for nothing but its ticks. A stretch is a
number of turns in which it does not come to wait for one.
-/

namespace DelayedQueue

/-- Whether a worker need not wait before it takes. A worker whose ticker cannot go on does not take
at its tick. -/
def Worker.isDueToPoll (w : Worker) (now : Instant) : Bool :=
  match w.phase with
  | .looping again => again
  | .ticking => w.ticker.isDue now && (w.ticker.tick now).isOk
  | _ => false

def Worker.Phase.isTicking : Worker.Phase → Bool
  | .ticking => true
  | _ => false

namespace Queue

variable {q r r' : Queue} {i : Nat} {h : Handler} {d : Duration} {gaps : Nat → Duration}
  {es es' : List Entry} {now : Time} {n n' : Nat} {p : Worker.Phase}

section Unlimited

variable {c : Config} {faults : Faults} {begun : Clocks} {ids : MessageId.Source} {observed : Bool}
  {q₀ : Queue}

theorem limiter?_consume (hr : q.config.rateLimit = none) (hl : q.limiter? = none)
    (base : Handler) (hasExecutor : Bool) : (q.consume base hasExecutor).2.limiter? = none := by
  have hstart : q.startLimiter = .ok none := by rw [startLimiter, hr]
  rcases q.consume_cases base hasExecutor with ⟨e, he⟩ | ⟨-, ⟨f, q', he, hf⟩ | ⟨q', he, hs⟩⟩
  · rw [he]
    exact hl
  · rw [he]
    cases hf <;> exact hl
  · obtain ⟨l, hstart', hs⟩ := hs.limiter
    rw [hstart] at hstart'
    cases hstart'
    rw [he, limiter?, hs]
    rfl

theorem limiter?_step_worker (hl : q.limiter? = none) (i : Nat) :
    (q.step (.worker i)).limiter? = none := by
  rcases reserves_step_worker (q := q) i with hsame | ⟨l, _, _, hl', -⟩
  · exact hsame.trans hl
  · rw [hl] at hl'
    cases hl'

theorem limiter?_meet (hr : q.config.rateLimit = none) (hl : q.limiter? = none) (e : Event) :
    (q.meet e).limiter? = none := by
  have hgear {m : Move} (hm : (q.move m).gear = q.gear) : (q.move m).limiter? = none :=
    (congrArg Gear.limiter hm).trans hl
  cases e with
  | outside k op => exact hl
  | move m =>
    cases m with
    | consume base hasExecutor => exact limiter?_consume hr hl base hasExecutor
    | use v =>
      simp only [meet, move, use]
      split
      · exact hl
      · exact hl
    | step t =>
      cases t with
      | worker i => exact limiter?_step_worker hl i
      | _ => exact hgear (gear_move (by simp) (by simp) (by simp))
    | _ => exact hgear (gear_move (by simp) (by simp) (by simp))

theorem limiter?_live (hq : Queue.new c faults begun ids observed = .ok q₀)
    (hr : c.rateLimit = none) (es : List Event) : (q₀.live es).limiter? = none := by
  have hc : q₀.config = c := (balanced_new hq).config
  have hl : q₀.limiter? = none := by
    obtain rfl := eq_of_new hq
    rfl
  clear hq
  induction es generalizing q₀ with
  | nil => exact hl
  | cons e es ih =>
    exact ih ((meet_follows e).config.trans hc) (limiter?_meet (hc.symm ▸ hr) hl e)

end Unlimited

section Unhindered

/-- Workers call `h`, have to wait for nothing but their ticks, and none of their calls of the store
fails. -/
structure Unhindered (h : Handler) (q : Queue) : Prop where
  orderly : ∃ ds, q.outline.Orderly ds
  handler : q.gear.handler = some h
  unlimited : q.limiter? = none
  running : q.isCancelled = false
  plan : ∀ n, (.take, n) ∉ q.faults.plan ∧ (.takePanic, n) ∉ q.faults.plan ∧
    (.commit, n) ∉ q.faults.plan

theorem setting_step (t : Task) : (q.step t).setting = q.setting :=
  (move_follows (.step t)).setting

theorem isCancelled_step_worker (hf : q.lifecycle.Fits q.outline.crew) (i : Nat) :
    (q.step (.worker i)).isCancelled = q.isCancelled := by
  have hcrew (q : Queue) : q.isCancelled = q.outline.crew.any Crew.cancelled := by
    simp only [isCancelled, outline, Option.any_map]
    rfl
  obtain ⟨o', ho, hstep⟩ : ∃ o', (q.step (.worker i)).outline = o' ∧
      q.outline.Step (.step (.worker i)) o' := ⟨_, rfl, move_step hf (.step (.worker i))⟩
  rw [hcrew, hcrew, ho]
  cases hstep with
  | stay => rfl
  | worker => simp only [Outline.put, Option.any_map, Crew.setPhase]

theorem Unhindered.elapse (hu : q.Unhindered h) (d : Duration) : (q.elapse d).Unhindered h where
  orderly := hu.orderly.elim fun _ ho => orderly_meet ho (.move (.elapse d))
  handler := hu.handler
  unlimited := hu.unlimited
  running := hu.running
  plan := hu.plan

theorem Unhindered.step (hu : q.Unhindered h) (i : Nat) :
    (q.step (.worker i)).Unhindered h := by
  obtain ⟨ds, ho⟩ := hu.orderly
  obtain ⟨l, hgear⟩ := gear_step_worker (q := q) i
  have hplan : (q.step (.worker i)).faults.plan = q.faults.plan :=
    congrArg Setting.plan (setting_step (.worker i))
  exact ⟨orderly_meet ho (.move (.step (.worker i))), hgear ▸ hu.handler,
    limiter?_step_worker hu.unlimited i, (isCancelled_step_worker ho.fits i).trans hu.running,
    hplan ▸ hu.plan⟩

theorem Unhindered.exists_worker (hu : q.Unhindered h) (hp : q.phase? i = some p) :
    ∃ s w, q.session = some s ∧ q.worker? i = some w ∧ w.phase = p ∧ s.handler = h ∧
      s.limiter = none ∧ s.cancelled = false := by
  obtain ⟨s, w, hs, hw, hph⟩ := Queue.exists_worker hp
  have hgear := gear_eq hs
  refine ⟨s, w, hs, hw, hph, ?_, (limiter?_eq hs).trans hu.unlimited, ?_⟩
  · exact Option.some.inj ((congrArg Gear.handler hgear).trans hu.handler)
  · have hrunning := hu.running
    rwa [isCancelled, hs, Option.any_some] at hrunning

end Unhindered

section Turns

/-- The queue after `n` turns of worker `i`, if `gaps j` of time passes before turn `j`. -/
def turns (q : Queue) (i : Nat) (gaps : Nat → Duration) : Nat → Queue
  | 0 => q
  | n + 1 => ((q.turns i gaps n).elapse (gaps n)).step (.worker i)

/-- The gaps from turn `n` on. -/
def gapsFrom (gaps : Nat → Duration) (n : Nat) : Nat → Duration := fun j => gaps (n + j)

theorem turns_add (n k : Nat) :
    q.turns i gaps (n + k) = (q.turns i gaps n).turns i (gapsFrom gaps n) k := by
  induction k with
  | zero => rfl
  | succ k ih => rw [← Nat.add_assoc, turns, ih, turns, gapsFrom]

theorem setting_turns (n : Nat) : (q.turns i gaps n).setting = q.setting := by
  induction n with
  | zero => rfl
  | succ n ih => exact (setting_step _).trans ih

theorem Unhindered.turns (hu : q.Unhindered h) (n : Nat) : (q.turns i gaps n).Unhindered h := by
  induction n with
  | zero => exact hu
  | succ n ih => exact (ih.elapse _).step i

theorem journal_suffix_turns (n : Nat) : q.journal <:+ (q.turns i gaps n).journal := by
  induction n with
  | zero => exact List.suffix_rfl
  | succ n ih =>
    refine ih.trans ?_
    exact journal_suffix_meet (q := (q.turns i gaps n).elapse (gaps n)) (.move (.step (.worker i)))

/-- Worker `i` waits for its next tick. -/
def AwaitsTick (q : Queue) (i : Nat) : Prop := q.phase? i = some .ticking

theorem awaitsTick_iff : q.AwaitsTick i ↔ (q.phase? i).any Worker.Phase.isTicking = true := by
  cases hp : q.phase? i with
  | none => simp [AwaitsTick, hp]
  | some p => cases p <;> simp [AwaitsTick, hp, Worker.Phase.isTicking]

instance : Decidable (q.AwaitsTick i) := decidable_of_iff _ awaitsTick_iff.symm

/-- The clock can be read in all turns until worker `i` comes to wait for a tick. -/
def Reads (q : Queue) (i : Nat) (gaps : Nat → Duration) : Prop :=
  ∀ n, (∀ j, 0 < j → j ≤ n → ¬ (q.turns i gaps j).AwaitsTick i) →
    ∃ t, ((q.turns i gaps n).elapse (gaps n)).wall = .ok t

/-- The clock shows `t` in one of the first `n` turns. -/
def Shows (q : Queue) (i : Nat) (gaps : Nat → Duration) (n : Nat) (t : Time) : Prop :=
  ∃ j < n, ((q.turns i gaps j).elapse (gaps j)).wall = .ok t

theorem Reads.wall (hr : q.Reads i gaps) : ∃ t, (q.elapse (gaps 0)).wall = .ok t :=
  hr 0 fun _ hpos hle => absurd hpos (Nat.not_lt.mpr hle)

theorem Shows.pos {t : Time} (hs : q.Shows i gaps n t) : 0 < n :=
  hs.elim fun _ hj => Nat.zero_lt_of_lt hj.1

theorem Shows.mono {t : Time} (hs : q.Shows i gaps n t) (hle : n ≤ n') : q.Shows i gaps n' t :=
  hs.imp fun _ hj => ⟨Nat.lt_of_lt_of_le hj.1 hle, hj.2⟩

theorem Shows.after {t : Time} {k : Nat} (hs : (q.turns i gaps k).Shows i (gapsFrom gaps k) n t) :
    q.Shows i gaps (k + n) t := by
  obtain ⟨j, hj, ht⟩ := hs
  rw [← turns_add] at ht
  exact ⟨k + j, Nat.add_lt_add_left hj k, ht⟩

end Turns

section Stretch

theorem doings_trans {q q' q'' : Queue} (hs : q.journal <:+ q'.journal)
    (hs' : q'.journal <:+ q''.journal) : doings q q'' = doings q q' ++ doings q' q'' := by
  rw [doings, newEntries_trans hs hs', List.filter_append, doings, doings]

/-- Within `n` turns worker `i` gets from `q` to `r`, does `es`, and does not come to wait for a
tick. -/
structure Stretch (i : Nat) (gaps : Nat → Duration) (n : Nat) (q r : Queue) (es : List Entry) :
    Prop where
  eq : q.turns i gaps n = r
  busy : ∀ j, 0 < j → j ≤ n → ¬ (q.turns i gaps j).AwaitsTick i
  doings : doings q r = es

theorem stretch_zero : Stretch i gaps 0 q q [] where
  eq := rfl
  busy _ hpos hle := absurd hpos (Nat.not_lt.mpr hle)
  doings := doings_of_record_eq List.suffix_rfl rfl

theorem stretch_one
    (hdoes : (q.elapse (gaps 0)).does i (.move (.step (.worker i))) = es)
    (hp : (q.turns i gaps 1).phase? i = some p) (hb : p ≠ .ticking) :
    Stretch i gaps 1 q (q.turns i gaps 1) es where
  eq := rfl
  busy j hpos hle := by
    obtain rfl : j = 1 := Nat.le_antisymm hle hpos
    rw [AwaitsTick, hp]
    exact fun he => hb (Option.some.inj he)
  doings := by
    rw [does, Event.isTurn, beq_self_eq_true, if_pos rfl] at hdoes
    exact hdoes

theorem does_turn {l : List Entry}
    (hr : ((q.elapse d).step (.worker i)).record =
      l.map (Prod.mk (q.elapse d).now) ++ q.record) :
    (q.elapse d).does i (.move (.step (.worker i))) = l.reverse :=
  does_of_record (q := q.elapse d) (beq_self_eq_true i) hr

namespace Stretch

variable (hs : Stretch i gaps n q r es)

include hs

theorem unhindered (hu : q.Unhindered h) : r.Unhindered h := hs.eq ▸ hu.turns n

theorem setting : r.setting = q.setting := hs.eq ▸ setting_turns n

theorem keys : r.keys = q.keys := keys_of_setting hs.setting

theorem reads (hr : q.Reads i gaps) : r.Reads i (gapsFrom gaps n) := by
  intro k hk
  rw [← hs.eq, ← turns_add]
  refine hr (n + k) fun j hpos hle => ?_
  by_cases hj : j ≤ n
  · exact hs.busy j hpos hj
  · obtain ⟨l, rfl⟩ := Nat.exists_eq_add_of_lt (Nat.lt_of_not_le hj)
    have hl := hk (l + 1) (Nat.succ_pos l) (by omega)
    rwa [← hs.eq, ← turns_add, ← Nat.add_assoc] at hl

theorem shows {t : Time} {k : Nat} (ht : r.Shows i (gapsFrom gaps n) k t) :
    q.Shows i gaps (n + k) t :=
  Shows.after (hs.eq ▸ ht)

theorem trans (hs' : Stretch i (gapsFrom gaps n) n' r r' es') :
    Stretch i gaps (n + n') q r' (es ++ es') where
  eq := by rw [turns_add, hs.eq, hs'.eq]
  busy j hpos hle := by
    by_cases hj : j ≤ n
    · exact hs.busy j hpos hj
    · obtain ⟨l, rfl⟩ := Nat.exists_eq_add_of_lt (Nat.lt_of_not_le hj)
      rw [Nat.add_assoc, turns_add, hs.eq]
      exact hs'.busy (l + 1) (Nat.succ_pos l) (by omega)
  doings := by
    have hsuffix : q.journal <:+ r.journal := hs.eq ▸ journal_suffix_turns n
    have hsuffix' : r.journal <:+ r'.journal := hs'.eq ▸ journal_suffix_turns n'
    rw [doings_trans hsuffix hsuffix', hs.doings, hs'.doings]

end Stretch

end Stretch

section Takes

/-- Worker `i` takes in its next turn. -/
def DueToPoll (q : Queue) (i : Nat) : Prop := (q.worker? i).any (·.isDueToPoll q.now) = true

instance : Decidable (q.DueToPoll i) := inferInstanceAs (Decidable (_ = true))

theorem dueToPoll_of_looping (hp : q.phase? i = some (.looping true)) : q.DueToPoll i := by
  obtain ⟨s, w, -, hw, hph⟩ := exists_worker hp
  simp only [DueToPoll, hw, Option.any_some, Worker.isDueToPoll, hph]

theorem Unhindered.takes (hu : q.Unhindered h) (hd : q.DueToPoll i) (hw : q.wall = .ok now) :
    ∃ s p, q.session = some s ∧ s.handler = h ∧ q.phase? i = some p ∧
      Takes s i q (q.step (.worker i)) := by
  obtain ⟨w, hwi, hdue⟩ : ∃ w, q.worker? i = some w ∧ w.isDueToPoll q.now = true := by
    simpa only [DueToPoll, Option.any_eq_true] using hd
  have hp : q.phase? i = some w.phase := by rw [phase?, hwi, Option.map_some]
  obtain ⟨s, w', hs, hw', -, hh, hl, hc⟩ := hu.exists_worker hp
  obtain rfl : w = w' := Option.some.inj (hwi.symm.trans hw')
  refine ⟨s, w.phase, hs, hh, hp, ?_⟩
  have hacquire (s' : Session) (hl : s'.limiter = none) :
      (q.setSession s').acquire s' i = (q.setSession s').takeAt s' i now := by
    have hw' : (q.setSession s').wall = .ok now := hw
    simp only [acquire, hl, take, hw']
  have hready : q.workerReady s w = true → q.step (.worker i) = q.stepWorker s i w :=
    meet_turn hs hwi
  cases hph : w.phase with
  | looping again =>
    obtain rfl : again = true := by simpa only [Worker.isDueToPoll, hph] using hdue
    have hturn : q.step (.worker i) = q.acquire s i := by
      rw [hready (by simp only [workerReady, hph]), stepWorker, hph]
      simp only [hc, Bool.false_eq_true, if_false, if_true]
    refine ⟨s, now, rfl, rfl, hw, ?_⟩
    rw [hturn, ← hacquire s hl, setSession_self hs]
  | ticking =>
    obtain ⟨hdue, hok⟩ : w.ticker.isDue q.now = true ∧ (w.ticker.tick q.now).isOk = true := by
      simpa only [Worker.isDueToPoll, hph, Bool.and_eq_true] using hdue
    cases ht : w.ticker.tick q.now with
    | error e =>
      rw [ht] at hok
      cases hok
    | ok ticker =>
      -- the tick goes into the session before the take, and the crew does not show it
      have hcrew : s.crew.setPhase i w.phase = s.crew := by
        refine Crew.setPhase_self ?_
        simp only [Session.crew, List.getElem?_map, getElem?_workers hs hwi, Option.map_some]
      refine ⟨{ s with workers := s.workers.set i { w with ticker } }, now, rfl,
        (Session.crew_setWorker i _).trans hcrew, hw, ?_⟩
      have hturn : q.step (.worker i) = q.tickWorker s i w := by
        rw [hready (by simp only [workerReady, hph, hdue, Bool.or_true]), stepWorker, hph]
        simp only [hc, Bool.false_eq_true, if_false]
      rw [hturn, tickWorker, ht]
      exact hacquire _ hl
  | _ => simp only [Worker.isDueToPoll, hph, Bool.false_eq_true] at hdue

theorem draw_of_unfailing (hf : ∀ n, (.take, n) ∉ q.faults.plan) (now : Time) :
    (q.draw now).1 = some (q.space.takeOne q.config.retryInterval q.config.maxDeliveries now).1 ∧
    (q.draw now).2.space q.keys =
      (q.space.takeOne q.config.retryInterval q.config.maxDeliveries now).2 := by
  have hstruck : (q.strike .take).1 = false :=
    Bool.eq_false_iff.mpr fun h => (mem_plan_of_strike h).elim fun n hn => hf n hn
  simp only [draw, hstruck, Bool.false_eq_true, if_false]
  exact ⟨congrArg some (Store.takeOne_fst ..), Store.space_takeOne ..⟩

end Takes

end Queue

end DelayedQueue
