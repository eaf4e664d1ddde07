import DelayedQueue.Proofs.Queue.Turns
import DelayedQueue.Proofs.Store.Take

/-! # A backlog

A worker that has found a message looks for the next one at once, whatever has come of the first. So
a ready list whose messages can all be read is drained on one tick, if the handler keeps nobody
waiting: the worker visits its ids in order, and one take more finds the list empty.
-/

namespace DelayedQueue

/-- The activity takes no time, goes to no store and no queue, and ends like this. -/
inductive Activity.Prompt : Activity → Ending → Prop where

  | finish (e : Ending) : Prompt (.finish e) e

  | pause {d : Duration} {rest : Activity} {e : Ending} (hd : d.isZero = true)
      (h : Prompt rest e) : Prompt (.pause d rest) e

  | report {r : Report} {rest : Activity} {e : Ending} (h : Prompt rest e) :
      Prompt (.report r rest) e

  | notify {n : Notice} {rest : Activity} {e : Ending} (h : Prompt rest e) :
      Prompt (.notify n rest) e

namespace Space

/-- The message that the row of `x` holds. -/
def message? (s : Space) (x : String) : Option Message :=
  (s.row? x).bind fun row => (Row.decode row).toOption

variable {s s' : Space} {x y : String} {m : Message}

theorem exists_row (h : s.message? x = some m) :
    ∃ row, s.row? x = some row ∧ Row.decode row = .ok m := by
  obtain ⟨row, hrow, hm⟩ := Option.bind_eq_some_iff.mp h
  cases hd : Row.decode row with
  | error f =>
    rw [hd] at hm
    cases hm
  | ok m' =>
    rw [hd] at hm
    exact ⟨row, hrow, hd.trans (congrArg Except.ok (Option.some.inj hm))⟩

theorem message?_of_row {row : Bytes} (h : s.row? x = some row) (hm : Row.decode row = .ok m) :
    s.message? x = some m := by
  rw [message?, h, Option.bind_some, hm]
  rfl

/-- The id `x` is popped, and nothing is done to the others. -/
structure Pops (x : String) (s s' : Space) : Prop where
  ready : s.ready = x :: s'.ready
  others : ∀ y, y ≠ x → s'.row? y = s.row? y ∧ s'.score? y = s.score? y

theorem Pops.message? (h : Pops x s s') (hy : y ≠ x) : s'.message? y = s.message? y :=
  congrArg (Option.bind · fun row => (Row.decode row).toOption) (h.others y hy).1

theorem Pops.commit (h : Pops x s s') : Pops x s (s'.commit x).2 where
  ready := h.ready.trans (congrArg (x :: ·) ready_commit.symm)
  others y hy := by
    have hplace : (s'.commit x).2.place y = s'.place y := place_commit_of_ne hy.symm
    exact ⟨(congrArg Place.row hplace).trans (h.others y hy).1,
      (congrArg Place.due hplace).trans (h.others y hy).2⟩

end Space

/-- A take of a queue that was opened with this. -/
def Queue.Setting.take (z : Queue.Setting) (now : Time) (s : Space) : Take × Space :=
  s.takeOne z.config.retryInterval z.config.maxDeliveries now

/-- What a worker comes across when it pops an id: the message that it finds, the time of its take,
and the time at which the handler is done with it. -/
structure Visit where
  found : Message
  taken : Time
  ended : Time

namespace Visit

/-- The message as the handler gets it. -/
def handed (v : Visit) : Message :=
  { v.found with deliveries := v.found.deliveries + 1, redeliverAt := some v.taken.floorMillis }

/-- Whether the message has used up its deliveries. -/
def isSpent (z : Queue.Setting) (v : Visit) : Bool := z.config.maxDeliveries ≤ v.found.deliveries

def outcome (ends : Message → Ending) (v : Visit) : Outcome :=
  (Queue.outcomeOf v.handed (ends v.handed)).1

/-- What worker `i` does in the visit. -/
def doings (z : Queue.Setting) (ends : Message → Ending) (i : Nat) (v : Visit) : List Entry :=
  if v.isSpent z then [.attempted i]
  else
    [.attempted i, .invoked i v.handed, .ended i v.handed (v.outcome ends)] ++
      ((if v.outcome ends = .success then [.committed i v.handed.id] else []) ++
        if z.observed then
          [.observed (v.handed.latency v.ended) v.handed.deliveries (v.outcome ends)]
        else [])

/-- A message that is spent or has been dealt with is gone. One whose handler has failed is pending,
with one delivery more. -/
def Leaves (z : Queue.Setting) (ends : Message → Ending) (v : Visit) (s : Space) : Prop :=
  if v.isSpent z ∨ v.outcome ends = .success then
    s.row? v.found.id = none ∧ s.score? v.found.id = none
  else
    s.message? v.found.id = some v.handed ∧
      v.handed.deliveries.toNat = v.found.deliveries.toNat + 1 ∧
      s.score? v.found.id = some (Score.addMillis v.taken.millis z.config.retryInterval)

variable {z : Queue.Setting} {ends : Message → Ending} {v : Visit} {s s' : Space}
  {rest : List String}

theorem Leaves.congr (h : v.Leaves z ends s) (hrow : s'.row? v.found.id = s.row? v.found.id)
    (hscore : s'.score? v.found.id = s.score? v.found.id) : v.Leaves z ends s' := by
  unfold Leaves Space.message? at h ⊢
  rwa [hrow, hscore]

section Take

variable (ends) (hr : s.ready = v.found.id :: rest) (hm : s.message? v.found.id = some v.found)

include hr

theorem pops_take : Space.Pops v.found.id s (z.take v.taken s).2 where
  ready := by rw [hr, Queue.Setting.take, (Space.takesHead_takeOne hr).ready]
  others := (Space.takesHead_takeOne hr).others

include hm

theorem take_of_isSpent (hs : v.isSpent z = true) :
    (z.take v.taken s).1 = .exhausted v.found.id v.found.deliveries ∧
      v.Leaves z ends (z.take v.taken s).2 := by
  obtain ⟨row, hrow, hd⟩ := Space.exists_row hm
  obtain ⟨htake, hgone⟩ :=
    (Space.takesHead_takeOne hr).exhausted row v.found hrow hd (of_decide_eq_true hs)
  refine ⟨htake, ?_⟩
  rw [Leaves, if_pos (.inl hs)]
  exact hgone

theorem take_of_not_isSpent (hs : v.isSpent z = false) :
    (z.take v.taken s).1.message? = some v.handed ∧
      v.Leaves z ends (if v.outcome ends = .success then ((z.take v.taken s).2.commit v.found.id).2
        else (z.take v.taken s).2) := by
  obtain ⟨row, hrow, hd⟩ := Space.exists_row hm
  obtain ⟨⟨row', htake, hrow', hscore, hd'⟩, hcount⟩ :=
    (Space.takesHead_takeOne hr).delivered row v.found hrow hd
      (UInt64.not_le.mp (of_decide_eq_false hs))
  refine ⟨by rw [Queue.Setting.take, htake, Take.message?, hd']; rfl, ?_⟩
  rw [Leaves, hs]
  by_cases ho : v.outcome ends = .success
  · rw [if_pos (.inr ho), if_pos ho]
    have hplace : ((z.take v.taken s).2.commit v.found.id).2.place v.found.id = _ :=
      Space.place_commit_self
    exact ⟨congrArg Place.row hplace, congrArg Place.due hplace⟩
  · rw [if_neg (by simp [ho]), if_neg ho]
    exact ⟨Space.message?_of_row hrow' hd', hcount, hscore⟩

end Take

end Visit

namespace Queue

variable {q r : Queue} {i n : Nat} {h : Handler} {gaps : Nat → Duration} {now : Time} {m : Message}
  {d : Delivery} {e : Ending} {o : Outcome} {latency : Duration} {rest : List String}
  {ends : Message → Ending}

section Phases

theorem step_handling (hp : q.phase? i = some (.handling d)) (hc : q.canProceed d = true) :
    q.step (.worker i) = q.proceed i d := by
  obtain ⟨s, w, hs, hw, hph⟩ := exists_worker hp
  have hready : q.workerReady s w = true := by simp only [workerReady, hph, hc, Bool.true_or]
  have hturn : q.step (.worker i) = q.stepWorker s i w := meet_turn hs hw hready
  rw [hturn, stepWorker, hph]
  simp only [handle, hc, if_true]

theorem step_idle (hu : q.Unhindered h) (hp : q.phase? i = some (.looping false)) :
    q.step (.worker i) = q.setPhase i .ticking := by
  obtain ⟨s, w, hs, hw, hph, -, -, hc⟩ := hu.exists_worker hp
  have hturn : q.step (.worker i) = q.stepWorker s i w :=
    meet_turn hs hw (by simp only [workerReady, hph])
  rw [hturn, stepWorker, hph]
  simp only [hc, Bool.false_eq_true, if_false]

/-- Some turns bring the handler to an end with this outcome. They leave the store as it is. -/
def EndsIn (i : Nat) (gaps : Nat → Duration) (d : Delivery) (o : Outcome) (q : Queue) : Prop :=
  ∃ n r t, Stretch i gaps n q r [.ended i d.message o] ∧ r.store = q.store ∧ q.Shows i gaps n t ∧
    r.phase? i = some (.settling d.message (d.message.latency t) o)

theorem canProceed_elapse (hh : d.activity ≠ .hang) (hw : d.wake ≤ q.now) (t : Duration) :
    (q.elapse t).canProceed d = true := by
  unfold canProceed
  split
  · next hd => exact absurd hd hh
  · exact decide_eq_true (Nat.le_trans hw (Nat.le_add_right _ _))

theorem endsIn_goOn (rest : Activity) {l : List (Instant × Entry)}
    (hp : q.phase? i = some (.handling d)) (hh : d.activity ≠ .hang) (hw : d.wake ≤ q.now)
    (hr : q.Reads i gaps) (hl : l.filter (fun e => e.2.isDoing) = q.record)
    (he : (q.elapse (gaps 0)).proceed i d =
      ({ q.elapse (gaps 0) with journal := l } : Queue).setPhase i
        (.handling { d with activity := rest }))
    (ih : ∀ {q : Queue} {gaps : Nat → Duration},
      q.phase? i = some (.handling { d with activity := rest }) → d.wake ≤ q.now →
      q.Reads i gaps → q.EndsIn i gaps { d with activity := rest } o) : q.EndsIn i gaps d o := by
  have hgo : (q.elapse (gaps 0)).step (.worker i) = _ :=
    (step_handling (q := q.elapse (gaps 0)) hp (canProceed_elapse hh hw _)).trans he
  have hp₁ : (q.turns i gaps 1).phase? i = some (.handling { d with activity := rest }) :=
    (congrArg (phase? · i) hgo).trans (setPhase_phase? (p := .handling d) hp _)
  have hdoes := does_turn (l := []) ((congrArg record hgo).trans hl)
  have hstretch := stretch_one hdoes hp₁ nofun
  have hw₁ : d.wake ≤ (q.turns i gaps 1).now :=
    (congrArg Queue.now hgo).symm ▸ Nat.le_trans hw (Nat.le_add_right _ _)
  have hstore₁ : (q.turns i gaps 1).store = q.store := (congrArg Queue.store hgo :)
  obtain ⟨n, r, t, hs, hstore, ht, hp'⟩ := ih hp₁ hw₁ (hstretch.reads hr)
  exact ⟨1 + n, r, t, hstretch.trans hs, hstore.trans hstore₁, hstretch.shows ht, hp'⟩

/-- A prompt handler ends before its worker waits for anything. -/
theorem endsIn_of_prompt {a : Activity} (ha : a.Prompt e) (hp : q.phase? i = some (.handling d))
    (hd : d.activity = a) (hw : d.wake ≤ q.now) (hr : q.Reads i gaps) :
    q.EndsIn i gaps d (outcomeOf d.message e).1 := by
  induction ha generalizing q d gaps with
  | finish e =>
    obtain ⟨t, ht⟩ := hr.wall
    obtain ⟨hstore, hrecord, hphase⟩ := endHandler_effect (q := q.elapse (gaps 0))
      (m := d.message) (o := (outcomeOf d.message e).1) hp (outcomeOf d.message e).2
    have hc := canProceed_elapse (by simp [hd]) hw (gaps 0)
    have hstep : (q.elapse (gaps 0)).step (.worker i) = (q.elapse (gaps 0)).endHandler i d.message
        (outcomeOf d.message e).1 (outcomeOf d.message e).2 := by
      rw [step_handling (q := q.elapse (gaps 0)) hp hc, proceed, hd]
    rw [← hstep] at hstore hrecord hphase
    have hdoes := does_turn (l := [.ended i d.message _]) hrecord
    exact ⟨1, _, t, stretch_one hdoes (hphase t ht) (by simp), hstore, ⟨0, Nat.one_pos, ht⟩,
      hphase t ht⟩
  | @pause _ rest _ hz _ ih =>
    refine endsIn_goOn rest hp (by simp [hd]) hw hr rfl ?_
      (ih (d := { d with activity := rest }) · rfl)
    rw [proceed, hd]
    simp only [hz, if_true]
    rfl
  | @report r rest _ _ ih =>
    refine endsIn_goOn (l := ((q.elapse (gaps 0)).now, .report d.message.id r) :: q.journal) rest
      hp (by simp [hd]) hw hr rfl ?_ (ih (d := { d with activity := rest }) · rfl)
    rw [proceed, hd]
    rfl
  | @notify n rest _ _ ih =>
    refine endsIn_goOn (l := ((q.elapse (gaps 0)).now, .notice n) :: q.journal) rest
      hp (by simp [hd]) hw hr rfl ?_ (ih (d := { d with activity := rest }) · rfl)
    rw [proceed, hd]
    rfl

theorem exists_settled (hu : q.Unhindered h) (hp : q.phase? i = some (.settling m latency o)) :
    ∃ r, Stretch i gaps 1 q r ((if o = .success then [.committed i m.id] else []) ++
        if q.observed then [.observed latency m.deliveries o] else []) ∧
      r.phase? i = some (.looping true) ∧
      r.store = if o = .success then (q.store.commit q.keys m.id).2 else q.store := by
  have hsettles := meet_settling (q := q.elapse (gaps 0)) (e := .move (.step (.worker i))) hp
    (fun n => (hu.plan n).2.2) (beq_self_eq_true i)
  exact ⟨_, stretch_one hsettles.does hsettles.phase nofun, hsettles.phase, hsettles.store⟩

theorem exists_taken (hu : q.Unhindered h) (hd : (q.elapse (gaps 0)).DueToPoll i)
    (hw : (q.elapse (gaps 0)).wall = .ok now) :
    ∃ r, r.space = (q.setting.take now q.space).2 ∧
      ((q.setting.take now q.space).1.message? = none → Stretch i gaps 1 q r [.attempted i] ∧
        r.phase? i = some (.looping (q.setting.take now q.space).1.isExhausted)) ∧
      ∀ m, (q.setting.take now q.space).1.message? = some m →
        Stretch i gaps 1 q r [.attempted i, .invoked i m] ∧ ∃ d, r.phase? i = some (.handling d) ∧
          d.message = m ∧ d.activity = h m ∧ d.wake ≤ r.now := by
  have hu₁ := hu.elapse (gaps 0)
  obtain ⟨s, p, hs, rfl, hp, htakes⟩ := hu₁.takes hd hw
  obtain ⟨now', hw', hpolls⟩ := htakes.polls hs hp fun n => (hu₁.plan n).2.1
  obtain rfl : now = now' := Except.ok.inj (hw.symm.trans hw')
  obtain ⟨hdraw, hspace⟩ := draw_of_unfailing (fun n => (hu₁.plan n).1) now
  have hdraw : ((q.elapse (gaps 0)).draw now).1 = some (q.setting.take now q.space).1 := hdraw
  refine ⟨(q.elapse (gaps 0)).step (.worker i), ?_, fun hk => ?_, fun m hk => ?_⟩
  · have hkeys : ((q.elapse (gaps 0)).step (.worker i)).keys = (q.elapse (gaps 0)).keys :=
      keys_of_setting (setting_step _)
    rw [space, hkeys, hpolls.store]
    exact hspace
  · obtain ⟨hrecord, hphase⟩ := hpolls.idle (by rw [hdraw]; exact hk)
    rw [hdraw] at hphase
    exact ⟨stretch_one (does_turn (l := [.attempted i]) hrecord) hphase (by simp), hphase⟩
  · obtain ⟨hrecord, hphase⟩ := hpolls.busy m (by rw [hdraw]; exact hk)
    obtain ⟨ds, ho⟩ := hu₁.orderly
    have hdoes := does_turn (l := [.invoked i m, .attempted i]) hrecord
    exact ⟨stretch_one hdoes hphase (by simp), _, hphase, rfl, rfl,
      now_le_live ho [.move (.step (.worker i))]⟩

theorem exists_handled (hu : q.Unhindered h) (hh : ∀ m, (h m).Prompt (ends m))
    (hd : (q.elapse (gaps 0)).DueToPoll i) (hr : q.Reads i gaps)
    (hw : (q.elapse (gaps 0)).wall = .ok now)
    (hm : (q.setting.take now q.space).1.message? = some m) (ho : (outcomeOf m (ends m)).1 = o) :
    ∃ n t r, Stretch i gaps n q r ([.attempted i, .invoked i m, .ended i m o] ++
        ((if o = .success then [.committed i m.id] else []) ++
          if q.setting.observed then [.observed (m.latency t) m.deliveries o] else [])) ∧
      r.phase? i = some (.looping true) ∧
      r.space = (if o = .success then ((q.setting.take now q.space).2.commit m.id).2
        else (q.setting.take now q.space).2) ∧
      q.Shows i gaps n t := by
  obtain ⟨r₁, hspace₁, -, hbusy⟩ := exists_taken hu hd hw
  obtain ⟨hs₁, d, hp₁, rfl, ha, hwake⟩ := hbusy m hm
  obtain ⟨n, r₂, t, hs₂, hstore₂, ht, hp₂⟩ := endsIn_of_prompt (hh _) hp₁ ha hwake (hs₁.reads hr)
  rw [ho] at hs₂ hp₂
  have hs₁₂ := hs₁.trans hs₂
  obtain ⟨r₃, hs₃, hp₃, hstore₃⟩ := exists_settled (hs₁₂.unhindered hu) hp₂
  have hobserved : r₂.observed = q.observed := congrArg Setting.observed hs₁₂.setting
  rw [hobserved] at hs₃
  have hspace₂ : r₂.space = (q.setting.take now q.space).2 := by
    rw [space, hstore₂, hs₂.keys]
    exact hspace₁
  refine ⟨_, t, r₃, hs₁₂.trans hs₃, hp₃, ?_, (hs₁.shows ht).mono (Nat.le_add_right _ 1)⟩
  rw [space, hs₃.keys, hstore₃, ← hspace₂]
  split
  · exact Store.space_apply (.commit d.message.id)
  · rfl

theorem exists_idle (hu : q.Unhindered h) (hd : (q.elapse (gaps 0)).DueToPoll i)
    (hr : q.Reads i gaps) (hx : q.space.ready = []) :
    ∃ r, Stretch i gaps 1 q r [.attempted i] ∧ (q.turns i gaps 2).AwaitsTick i ∧
      doings r (q.turns i gaps 2) = [] ∧ (q.turns i gaps 2).space = q.space := by
  obtain ⟨now, hw⟩ := hr.wall
  obtain ⟨r, hspace, hidle, -⟩ := exists_taken hu hd hw
  rw [Setting.take, Space.takeOne_of_nil hx] at hspace hidle
  obtain ⟨hs, hp⟩ := hidle rfl
  have hp : (r.elapse (gaps 1)).phase? i = some (.looping false) := hp
  have hlast : q.turns i gaps 2 = (r.elapse (gaps 1)).setPhase i .ticking := by
    rw [← step_idle ((hs.unhindered hu).elapse (gaps 1)) hp, ← hs.eq]
    rfl
  refine ⟨r, hs, hlast ▸ setPhase_phase? hp .ticking, ?_, ?_⟩
  · rw [hlast]
    exact doings_of_record_eq List.suffix_rfl rfl
  · rw [hlast]
    exact hspace

end Phases

section Visits

/-- In `n` turns worker `i` makes a visit, and after them it is due to poll again. -/
structure Makes (ends : Message → Ending) (i : Nat) (gaps : Nat → Duration) (n : Nat) (v : Visit)
    (q r : Queue) : Prop where
  stretch : Stretch i gaps n q r (v.doings q.setting ends i)
  phase : r.phase? i = some (.looping true)
  pops : q.space.Pops v.found.id r.space
  leaves : v.Leaves q.setting ends r.space
  taken : q.Shows i gaps n v.taken
  ended : q.Shows i gaps n v.ended

variable {v : Visit}

theorem exists_makes_of_isSpent (hu : q.Unhindered h) (hd : (q.elapse (gaps 0)).DueToPoll i)
    (hw : (q.elapse (gaps 0)).wall = .ok v.taken) (he : v.ended = v.taken)
    (hx : q.space.ready = v.found.id :: rest) (hm : q.space.message? v.found.id = some v.found)
    (hv : v.isSpent q.setting = true) : ∃ r, Makes ends i gaps 1 v q r := by
  obtain ⟨r, hspace, hidle, -⟩ := exists_taken hu hd hw
  have hpops := Visit.pops_take (z := q.setting) hx
  obtain ⟨htake, hleaves⟩ := Visit.take_of_isSpent ends hx hm hv
  rw [htake] at hidle
  rw [← hspace] at hpops hleaves
  obtain ⟨hs, hp⟩ := hidle rfl
  have hdoings : v.doings q.setting ends i = [.attempted i] := if_pos hv
  have hshows : q.Shows i gaps 1 v.taken := ⟨0, Nat.one_pos, hw⟩
  exact ⟨r, hdoings ▸ hs, hp, hpops, hleaves, hshows, he ▸ hshows⟩

theorem exists_makes_of_not_isSpent (hu : q.Unhindered h) (hh : ∀ m, (h m).Prompt (ends m))
    (hd : (q.elapse (gaps 0)).DueToPoll i) (hr : q.Reads i gaps)
    (hw : (q.elapse (gaps 0)).wall = .ok now) (hx : q.space.ready = m.id :: rest)
    (hm : q.space.message? m.id = some m) (hc : ¬ q.config.maxDeliveries ≤ m.deliveries) :
    ∃ n t r, Makes ends i gaps n ⟨m, now, t⟩ q r := by
  have hv (t : Time) : (Visit.mk m now t).isSpent q.setting = false := decide_eq_false hc
  have htake (t : Time) := Visit.take_of_not_isSpent ends (v := ⟨m, now, t⟩) hx hm (hv t)
  obtain ⟨n, t, r, hs, hp, hspace, ht⟩ := exists_handled hu hh hd hr hw (htake now).1 rfl
  have hpops : q.space.Pops m.id (q.setting.take now q.space).2 :=
    Visit.pops_take (z := q.setting) (v := ⟨m, now, t⟩) hx
  have hnow : q.Shows i gaps n now := Shows.mono ⟨0, Nat.one_pos, hw⟩ ht.pos
  refine ⟨n, t, r, ⟨?_, hp, ?_, hspace ▸ (htake t).2, hnow, ht⟩⟩
  · rw [Visit.doings, hv]
    exact hs
  · rw [hspace]
    split
    · exact hpops.commit
    · exact hpops

theorem exists_makes (hu : q.Unhindered h) (hh : ∀ m, (h m).Prompt (ends m))
    (hd : (q.elapse (gaps 0)).DueToPoll i) (hr : q.Reads i gaps)
    (hx : q.space.ready = m.id :: rest) (hm : q.space.message? m.id = some m) :
    ∃ v n r, v.found = m ∧ Makes ends i gaps n v q r := by
  obtain ⟨now, hw⟩ := hr.wall
  by_cases hc : q.config.maxDeliveries ≤ m.deliveries
  · obtain ⟨r, hv⟩ := exists_makes_of_isSpent (v := ⟨m, now, now⟩) hu hd hw rfl hx hm
      (decide_eq_true hc)
    exact ⟨_, 1, r, rfl, hv⟩
  · obtain ⟨n, t, r, hv⟩ := exists_makes_of_not_isSpent hu hh hd hr hw hx hm hc
    exact ⟨_, n, r, rfl, hv⟩

/-- A worker that is due to poll visits all ready ids, one after the other. -/
theorem exists_drained {ready : List String} (hu : q.Unhindered h)
    (hh : ∀ m, (h m).Prompt (ends m)) (hd : (q.elapse (gaps 0)).DueToPoll i) (hr : q.Reads i gaps)
    (hx : q.space.ready = ready) (hn : ready.Nodup)
    (hm : ∀ x ∈ ready, ∃ m, q.space.message? x = some m ∧ m.id = x) :
    ∃ (visits : List Visit) (n : Nat) (r : Queue),
      Stretch i gaps n q r (visits.flatMap (Visit.doings q.setting ends i)) ∧
      (r.elapse (gaps n)).DueToPoll i ∧ r.space.ready = [] ∧
      visits.map (fun v => v.found.id) = ready ∧
      (∀ v ∈ visits, q.space.message? v.found.id = some v.found ∧
        v.Leaves q.setting ends r.space ∧ q.Shows i gaps n v.taken ∧ q.Shows i gaps n v.ended) ∧
      ∀ y ∉ ready, r.space.row? y = q.space.row? y ∧ r.space.score? y = q.space.score? y := by
  induction ready generalizing q gaps with
  | nil =>
    exact ⟨[], 0, q, stretch_zero, hd, hx, rfl, by simp, fun _ _ => ⟨rfl, rfl⟩⟩
  | cons x rest ih =>
    obtain ⟨m, hmx, rfl⟩ := hm x List.mem_cons_self
    obtain ⟨hx', hn'⟩ := List.nodup_cons.mp hn
    have hne {y : String} (hy : y ∈ rest) : y ≠ m.id := fun he => hx' (he ▸ hy)
    obtain ⟨v, n, r, rfl, hv⟩ := exists_makes hu hh hd hr hx hmx
    have hrest : r.space.ready = rest :=
      (List.cons.inj (hx.symm.trans hv.pops.ready)).2.symm
    have hsame {y : String} (hy : y ∈ rest) : r.space.message? y = q.space.message? y :=
      hv.pops.message? (hne hy)
    -- the visit leaves the worker due to poll, so the rest is drained from there with no tick
    have hd₁ : (r.elapse (gapsFrom gaps n 0)).DueToPoll i := dueToPoll_of_looping hv.phase
    obtain ⟨visits, n', r', hs, hd', hempty, hids, hvisits, hothers⟩ :=
      ih (hv.stretch.unhindered hu) hd₁ (hv.stretch.reads hr) hrest hn' fun y hy =>
        (hm y (List.mem_cons_of_mem _ hy)).imp fun _ hm => ⟨(hsame hy).trans hm.1, hm.2⟩
    rw [hv.stretch.setting] at hs hvisits
    refine ⟨v :: visits, n + n', r', hv.stretch.trans hs, hd', hempty, ?_, ?_, ?_⟩
    · rw [List.map_cons, hids]
    · rintro u (_ | ⟨_, hu⟩)
      · -- no later visit is to the same id, so what this one has left of it stays
        obtain ⟨hrow, hscore⟩ := hothers _ hx'
        exact ⟨hmx, hv.leaves.congr hrow hscore, hv.taken.mono (Nat.le_add_right _ _),
          hv.ended.mono (Nat.le_add_right _ _)⟩
      · obtain ⟨hfound, hleft, htaken, hended⟩ := hvisits u hu
        have hmem : u.found.id ∈ rest := by
          rw [← hids]
          exact List.mem_map_of_mem hu
        exact ⟨(hsame hmem).symm.trans hfound, hleft, hv.stretch.shows htaken,
          hv.stretch.shows hended⟩
    · intro y hy
      obtain ⟨hy, hy'⟩ := not_or.mp (List.mem_cons.not.mp hy)
      obtain ⟨hrow, hscore⟩ := hv.pops.others y hy
      exact ⟨(hothers y hy').1.trans hrow, (hothers y hy').2.trans hscore⟩

end Visits

section Reachable

variable {c : Config} {faults : Faults} {begun : Clocks} {ids : MessageId.Source} {observed : Bool}
  {q₀ : Queue} {s : Session} {es : List Event}

/-- Let the worker of a queue without a rate limit be due to poll, at any point of any run, and let
the handler be prompt, whatever it comes to for each message. Let the ready ids be distinct and have
rows that hold messages with these ids. If the worker then has the queue to itself, however much
time passes between its turns, and if the clock can be read, it visits all ready ids in their order
before it waits for a tick. A message that has used up its deliveries is dropped; any other is
handed to the handler once, and committed if this succeeds. One take more finds nothing, and the
worker waits. The ready list is then empty; what was dropped or committed is gone; what failed is
pending, and its row has counted the delivery; and all other ids are where they were. -/
theorem backlog_drains (hq : Queue.new c faults begun ids observed = .ok q₀) (hl : q₀.live es = q)
    (hf : ∀ n, (.take, n) ∉ faults.plan ∧ (.takePanic, n) ∉ faults.plan ∧
      (.commit, n) ∉ faults.plan)
    (hlimit : c.rateLimit = none) (hs : q.session = some s) (hc : s.cancelled = false)
    (hh : ∀ m, (s.handler m).Prompt (ends m)) (hn : q.space.ready.Nodup)
    (hm : ∀ x ∈ q.space.ready, ∃ m, q.space.message? x = some m ∧ m.id = x)
    (hd : (q.elapse (gaps 0)).DueToPoll i) (hr : q.Reads i gaps) :
    ∃ (visits : List Visit) (n : Nat),
      visits.map (fun v => v.found.id) = q.space.ready ∧
      (∀ j, 0 < j → j < n → ¬ (q.turns i gaps j).AwaitsTick i) ∧
      (q.turns i gaps n).AwaitsTick i ∧
      doings q (q.turns i gaps n) =
        visits.flatMap (Visit.doings q.setting ends i) ++ [.attempted i] ∧
      (q.turns i gaps n).space.ready = [] ∧
      (∀ v ∈ visits, q.space.message? v.found.id = some v.found ∧
        v.Leaves q.setting ends (q.turns i gaps n).space ∧
        q.Shows i gaps n v.taken ∧ q.Shows i gaps n v.ended) ∧
      ∀ y ∉ q.space.ready, (q.turns i gaps n).space.row? y = q.space.row? y ∧
        (q.turns i gaps n).space.score? y = q.space.score? y := by
  have hu : q.Unhindered s.handler := by
    have hplan : q.faults.plan = faults.plan :=
      congrArg Setting.plan (hl ▸ setting_live hq es)
    refine ⟨hl ▸ orderly_live (orderly_new hq) es, ?_, hl ▸ limiter?_live hq hlimit es, ?_,
      hplan ▸ hf⟩
    · rw [gear, hs, Option.map_some]
    · rw [isCancelled, hs, Option.any_some, hc]
  obtain ⟨visits, n, r, hstretch, hdue, hempty, hids, hvisits, hothers⟩ :=
    exists_drained hu hh hd hr rfl hn hm
  obtain ⟨r', hlast, hawaits, hdoings, hspace⟩ :=
    exists_idle (hstretch.unhindered hu) hdue (hstretch.reads hr) hempty
  have hall := hstretch.trans hlast
  rw [← hstretch.eq, ← turns_add] at hawaits hdoings hspace
  rw [hstretch.eq] at hspace
  have hsuffix : q.journal <:+ r'.journal := hall.eq ▸ journal_suffix_turns (n + 1)
  have hsuffix' : r'.journal <:+ (q.turns i gaps (n + 2)).journal := by
    rw [← hall.eq]
    exact journal_suffix_meet (q := (q.turns i gaps (n + 1)).elapse _) (.move (.step (.worker i)))
  have hmono {t : Time} (ht : q.Shows i gaps n t) : q.Shows i gaps (n + 2) t :=
    ht.mono (Nat.le_add_right n 2)
  refine ⟨visits, n + 2, hids, fun j hpos hj => hall.busy j hpos (Nat.le_of_lt_succ hj), hawaits,
    ?_, ?_, fun v hv => ?_, ?_⟩
  · rw [doings_trans hsuffix hsuffix', hall.doings, hdoings, List.append_nil]
  · rw [hspace, hempty]
  · obtain ⟨hfound, hleft, htaken, hended⟩ := hvisits v hv
    exact ⟨hfound, hspace ▸ hleft, hmono htaken, hmono hended⟩
  · rw [hspace]
    exact hothers

/-- One handler succeeds, one fails, and the others panic. -/
def mixedEnding (m : Message) : Ending :=
  if m.id = "a" then .success else if m.id = "b" then .failure "refused" [] else .panic none

/-- Four messages are ready, one of them with all its deliveries used up, when the worker comes to
its first tick. -/
def pilingUp : List Event :=
  [("a", 0), ("b", 1), ("c", 4), ("d", 3)].map (fun (id, deliveries) =>
    .outside (.ofName "default")
      (.produce ⟨id, [1], .epoch, none, none, deliveries⟩ .epoch)) ++
  [.move (.consume (fun m => .pause .zero (.finish (mixedEnding m))) true), nextTurn, nextTurn]

theorem prompt_mixedEnding (m : Message) :
    (Activity.pause .zero (.finish (mixedEnding m))).Prompt (mixedEnding m) :=
  .pause rfl (.finish _)

/-- The clock goes on by a millisecond before each turn. -/
theorem backlog_drains_mixed : ∃ (q : Queue) (s : Session) (visits : List Visit) (n : Nat),
    Queue.new {} .none ⟨.epoch, 0⟩ ⟨0, 0⟩ true = .ok observedQueue ∧
    observedQueue.live pilingUp = q ∧
    (∀ n, (.take, n) ∉ Faults.none.plan ∧ (.takePanic, n) ∉ Faults.none.plan ∧
      (.commit, n) ∉ Faults.none.plan) ∧
    q.session = some s ∧ s.cancelled = false ∧ (∀ m, (s.handler m).Prompt (mixedEnding m)) ∧
    q.space.ready.Nodup ∧
    (∀ x ∈ q.space.ready, ∃ m, q.space.message? x = some m ∧ m.id = x) ∧
    (q.elapse (.ofMillis 1)).DueToPoll 0 ∧ q.Reads 0 (fun _ => .ofMillis 1) ∧
    visits.map (fun v => v.found.id) = ["a", "b", "c", "d"] ∧
    (q.turns 0 (fun _ => .ofMillis 1) n).AwaitsTick 0 ∧
    doings q (q.turns 0 (fun _ => .ofMillis 1) n) =
      visits.flatMap (Visit.doings q.setting mixedEnding 0) ++ [.attempted 0] ∧
    (q.turns 0 (fun _ => .ofMillis 1) n).space.ready = [] := by
  have hq : Queue.new {} .none ⟨.epoch, 0⟩ ⟨0, 0⟩ true = .ok observedQueue := rfl
  have hf : ∀ n, (.take, n) ∉ Faults.none.plan ∧ (.takePanic, n) ∉ Faults.none.plan ∧
      (.commit, n) ∉ Faults.none.plan :=
    fun n => ⟨List.not_mem_nil, List.not_mem_nil, List.not_mem_nil⟩
  obtain ⟨q, hl⟩ : ∃ q, observedQueue.live pilingUp = q := ⟨_, rfl⟩
  obtain ⟨s, hs, hh⟩ : ∃ s, q.session = some s ∧
      s.handler = fun m => .pause .zero (.finish (mixedEnding m)) :=
    hl ▸ ⟨_, rfl, rfl⟩
  obtain ⟨hc, hready, hn, hmessages, hd⟩ : q.isCancelled = false ∧
      q.space.ready = ["a", "b", "c", "d"] ∧ q.space.ready.Nodup ∧
      (∀ x ∈ q.space.ready, (q.space.message? x).any (·.id == x) = true) ∧
      (q.elapse (.ofMillis 1)).DueToPoll 0 := by
    rw [← hl]
    decide +kernel
  have hc : s.cancelled = false := by rwa [isCancelled, hs, Option.any_some] at hc
  have hh (m : Message) : (s.handler m).Prompt (mixedEnding m) := hh ▸ prompt_mixedEnding m
  have hm : ∀ x ∈ q.space.ready, ∃ m, q.space.message? x = some m ∧ m.id = x := by
    intro x hx
    obtain ⟨m, hm, hid⟩ : ∃ m, q.space.message? x = some m ∧ (m.id == x) = true := by
      simpa only [Option.any_eq_true] using hmessages x hx
    exact ⟨m, hm, eq_of_beq hid⟩
  have hr : q.Reads 0 (fun _ => .ofMillis 1) := by
    intro n hbusy
    obtain ⟨hawaits, hread⟩ : (q.turns 0 (fun _ => .ofMillis 1) 15).AwaitsTick 0 ∧
        ∀ j < 15, ((q.turns 0 (fun _ => .ofMillis 1) j).elapse (.ofMillis 1)).wall.isOk = true := by
      rw [← hl]
      decide +kernel
    have hlt : n < 15 := Nat.lt_of_not_le fun hle => hbusy 15 (Nat.succ_pos 14) hle hawaits
    cases he : ((q.turns 0 (fun _ => .ofMillis 1) n).elapse (.ofMillis 1)).wall with
    | ok t => exact ⟨t, rfl⟩
    | error p =>
      have hok := hread n hlt
      rw [he] at hok
      cases hok
  obtain ⟨visits, n, hids, -, hawaits, hdoings, hempty, -⟩ :=
    backlog_drains hq hl hf rfl hs hc hh hn hm hd hr
  exact ⟨q, s, visits, n, hq, hl, hf, hs, hc, hh, hn, hm, hd, hr, hids.trans hready, hawaits,
    hdoings, hempty⟩

end Reachable

end Queue

end DelayedQueue
