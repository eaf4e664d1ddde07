import DelayedQueue.Proofs.Config.Validity
import DelayedQueue.Proofs.Queue.Books
import DelayedQueue.Proofs.Queue.NoLoss
import DelayedQueue.Proofs.Queue.Outline
import DelayedQueue.Proofs.Store.Batches

/-! # A pass of the daemon

A pass promotes one batch after another until a batch comes back short. While nothing else happens
to the store each full batch is the front of what one promotion at a later time would move, so the
pass does what a single promotion at its last reading of the clock would do, and it makes one call
more than there are full batches.
-/

namespace DelayedQueue

theorem Faults.count_strike (f : Faults) (c : StoreCall) :
    (f.strike c).2.count c = f.count c + 1 := by
  simp [strike, count]

namespace Queue

/-- The daemon is in a pass that has moved `total` ids so far, and it is not cancelled. -/
def InPass (q : Queue) (total : Nat) : Prop :=
  ∃ s, q.session = some s ∧ s.cancelled = false ∧ s.daemon.phase = .promoting total

/-- The daemon waits for its next tick. -/
def Rests (q : Queue) : Prop := ∃ s, q.session = some s ∧ s.daemon.phase = .waiting

/-- The queue after `n` calls of its daemon, if `gaps j` of time passes before call `j`. -/
def pass (q : Queue) (gaps : Nat → Duration) : Nat → Queue
  | 0 => q
  | n + 1 => ((q.pass gaps n).elapse (gaps n)).step .daemon

variable {q q' : Queue} {total n : Nat} {t : Time} {b : Nat} {gaps : Nat → Duration}

def batch (q : Queue) : Nat := q.config.promoteBatchSize.toNat

section Phases

theorem inPass_iff : q.InPass total ↔
    q.session.any (fun s => !s.cancelled && s.daemon.phase == .promoting total) = true := by
  simp [InPass, Option.any_eq_true]

theorem rests_iff : q.Rests ↔ q.session.any (fun s => s.daemon.phase == .waiting) = true := by
  simp [Rests, Option.any_eq_true]

instance : Decidable (q.InPass total) := decidable_of_iff _ inPass_iff.symm
instance : Decidable q.Rests := decidable_of_iff _ rests_iff.symm

theorem Rests.not_inPass (h : q.Rests) : ¬ q.InPass total := by
  obtain ⟨s, hs, hp⟩ := h
  rintro ⟨s', hs', -, hp'⟩
  cases hs.symm.trans hs'
  rw [hp] at hp'
  cases hp'

end Phases

section Calls

/-- One call for a batch, at time `t`, and what else stays as it is. -/
structure Calls (t : Time) (q q' : Queue) : Prop where
  setting : q'.setting = q.setting
  now : q'.now = q.now
  count : q'.faults.count .promote = q.faults.count .promote + 1
  store : q'.store = (q.store.promoteDue q.keys t q.batch).2

theorem Calls.setDaemon {s : Session} {d : Daemon} (h : Calls t q q') :
    Calls t q (q'.setDaemon s d) :=
  ⟨h.setting, h.now, h.count, h.store⟩

theorem Calls.endPass {s : Session} (h : Calls t q q') : Calls t q (q'.endPass s total) := by
  unfold Queue.endPass
  refine Calls.setDaemon ?_
  split
  · exact h
  · exact ⟨h.setting, h.now, h.count, h.store⟩

theorem Calls.space (h : Calls t q q') : q'.space = (q.space.promoteDue t q.batch).2 := by
  rw [Queue.space, keys_of_setting h.setting, h.store]
  exact Store.space_promoteDue

theorem step_inPass (h : q.InPass total) (hw : q.wall = .ok t)
    (hf : ∀ n, (.promote, n) ∉ q.faults.plan) :
    Calls t q (q.step .daemon) ∧
    if (q.space.dueEntries t q.batch).length < q.batch then (q.step .daemon).Rests
    else (q.step .daemon).InPass (total + (q.space.dueEntries t q.batch).length) := by
  obtain ⟨s, hs, hc, hp⟩ := h
  have hstruck : (q.strike .promote).1 = false :=
    Bool.eq_false_iff.mpr fun hstruck => (mem_plan_of_strike hstruck).elim fun n hn => hf n hn
  have hready : q.isReady .daemon = true := by simp [isReady, hs, daemonReady, hp]
  have hmoved : (q.store.promoteDue q.keys t q.batch).1 =
      (q.space.dueEntries t q.batch).length := Store.promoteDue_fst
  obtain ⟨q₁, hq₁⟩ : ∃ q₁ : Queue, q₁ =
    { (q.strike .promote).2 with store := (q.store.promoteDue q.keys t q.batch).2 } := ⟨_, rfl⟩
  have hcalls : Calls t q q₁ := hq₁ ▸ ⟨rfl, rfl, q.faults.count_strike .promote, rfl⟩
  have hstep : q.step .daemon =
      if (q.space.dueEntries t q.batch).length < q.batch then
        q₁.endPass s (total + (q.space.dueEntries t q.batch).length)
      else q₁.setDaemon s { s.daemon with
        phase := .promoting (total + (q.space.dueEntries t q.batch).length) } := by
    simp only [step, hready, if_true, advance, hs, stepDaemon, hp, promote, hw, promoteAt, hstruck,
      Bool.false_eq_true, if_false, hc, Bool.or_false, decide_eq_true_eq, hq₁, ← hmoved]
    rfl
  rw [hstep]
  split
  · exact ⟨hcalls.endPass, _, rfl, rfl⟩
  · exact ⟨hcalls.setDaemon, _, rfl, hc, rfl⟩

end Calls

section Full

/-- After `n` full batches. A promotion that comes next moves what a promotion with room for these
batches as well would have moved at first. -/
structure Full (n : Nat) (q q' : Queue) : Prop where
  inPass : q'.InPass (n * q.batch)
  setting : q'.setting = q.setting
  count : q'.faults.count .promote = q.faults.count .promote + n
  length (limit : Nat) {t : Time} (ht : q'.begun.nanosAt q'.now ≤ t.nanos) :
    n * q.batch + (q'.space.dueEntries t limit).length =
      (q.space.dueEntries t (n * q.batch + limit)).length
  store (limit : Nat) {t : Time} (ht : q'.begun.nanosAt q'.now ≤ t.nanos) :
    (q'.store.promoteDue q.keys t limit).2 =
      (q.store.promoteDue q.keys t (n * q.batch + limit)).2

theorem full_zero (h : q.InPass 0) : Full 0 q q where
  inPass := by rwa [Nat.zero_mul]
  setting := rfl
  count := rfl
  length limit t _ := by rw [Nat.zero_mul, Nat.zero_add, Nat.zero_add]
  store limit t _ := by rw [Nat.zero_mul, Nat.zero_add]

variable {d : Duration}

theorem Full.keys (h : Full n q q') : q'.keys = q.keys := keys_of_setting h.setting

theorem Full.batch (h : Full n q q') : q'.batch = q.batch :=
  congrArg (fun s : Setting => s.config.promoteBatchSize.toNat) h.setting

theorem Full.calls (h : Full n q q') (hf : ∀ n, (.promote, n) ∉ q.faults.plan)
    (hw : (q'.elapse d).wall = .ok t) :
    Calls t (q'.elapse d) ((q'.elapse d).step .daemon) ∧
    if (q'.space.dueEntries t q.batch).length < q.batch then ((q'.elapse d).step .daemon).Rests
    else ((q'.elapse d).step .daemon).InPass
      (n * q.batch + (q'.space.dueEntries t q.batch).length) := by
  have hp : (q'.elapse d).InPass (n * q.batch) := h.inPass
  have hplan : q'.faults.plan = q.faults.plan := congrArg Setting.plan h.setting
  have hstep := step_inPass hp hw (hplan.symm ▸ hf)
  have hb : (q'.elapse d).batch = q.batch := h.batch
  rwa [hb] at hstep

theorem Full.succ (h : Full n q q') (hf : ∀ n, (.promote, n) ∉ q.faults.plan)
    (hw : (q'.elapse d).wall = .ok t) (hb : q.batch ≤ (q'.space.dueEntries t q.batch).length) :
    Full (n + 1) q ((q'.elapse d).step .daemon) := by
  obtain ⟨hcalls, hphase⟩ := h.calls hf hw
  have hlen : (q'.space.dueEntries t q.batch).length = q.batch :=
    Nat.le_antisymm (List.length_take_le _ _) hb
  rw [hlen, if_neg (Nat.lt_irrefl _), ← Nat.succ_mul] at hphase
  have hspace : ((q'.elapse d).step .daemon).space = (q'.space.promoteDue t q.batch).2 :=
    h.batch ▸ hcalls.space
  have hstore : ((q'.elapse d).step .daemon).store = (q'.store.promoteDue q.keys t q.batch).2 :=
    h.keys ▸ h.batch ▸ hcalls.store
  have hread : t.nanos = q'.begun.nanosAt (q'.now + d.nanos) := nanos_of_wall hw
  -- a time that is not before the next state is not before this reading, nor before this state
  have hlater {t' : Time} (ht : ((q'.elapse d).step .daemon).begun.nanosAt
      ((q'.elapse d).step .daemon).now ≤ t'.nanos) :
      t.millis ≤ t'.millis ∧ q'.begun.nanosAt q'.now ≤ t'.nanos := by
    have hbegun : ((q'.elapse d).step .daemon).begun = q'.begun :=
      congrArg Setting.begun hcalls.setting
    rw [hbegun, hcalls.now] at ht
    have hnow : q'.begun.nanosAt (q'.now + d.nanos) ≤ t'.nanos := ht
    refine ⟨Int.ediv_le_ediv (by decide) (hread ▸ hnow), Int.le_trans ?_ hnow⟩
    exact q'.begun.nanosAt_le (Nat.le_add_right _ _)
  exact {
    inPass := hphase
    setting := hcalls.setting.trans h.setting
    count := hcalls.count.trans (congrArg (· + 1) h.count)
    length := fun limit t' ht => by
      obtain ⟨hle, ht'⟩ := hlater ht
      have hall := h.length (q.batch + limit) ht'
      rw [Space.dueEntries_add hle hlen, List.length_append, hlen, ← hspace] at hall
      rw [Nat.succ_mul, Nat.add_assoc, Nat.add_assoc, hall]
    store := fun limit t' ht => by
      obtain ⟨hle, ht'⟩ := hlater ht
      have hlen' : ((q'.store.space q.keys).dueEntries t q.batch).length = q.batch := h.keys ▸ hlen
      rw [hstore, Store.promoteDue_add hle hlen', h.store _ ht', Nat.succ_mul, Nat.add_assoc] }

theorem Full.le_nanos (hw : (q'.elapse d).wall = .ok t) : q'.begun.nanosAt q'.now ≤ t.nanos := by
  have hread : t.nanos = q'.begun.nanosAt (q'.now + d.nanos) := nanos_of_wall hw
  rw [hread]
  exact q'.begun.nanosAt_le (Nat.le_add_right _ _)

theorem Full.mul_le (h : Full n q q') (hi : q.space.Indexed)
    (hw : (q'.elapse d).wall = .ok t) : n * q.batch ≤ q.space.backlog t := by
  have hlen := h.length 0 (Full.le_nanos hw)
  rw [Space.length_dueEntries hi] at hlen
  omega

theorem Full.ends (h : Full n q q') (hf : ∀ n, (.promote, n) ∉ q.faults.plan)
    (hi : q.space.Indexed) (hw : (q'.elapse d).wall = .ok t)
    (hb : (q'.space.dueEntries t q.batch).length < q.batch) :
    n = q.space.backlog t / q.batch ∧ ((q'.elapse d).step .daemon).Rests ∧
    ((q'.elapse d).step .daemon).faults.count .promote = q.faults.count .promote + (n + 1) ∧
    ((q'.elapse d).step .daemon).keys = q.keys ∧
    ∀ limit, q.space.backlog t ≤ limit →
      ((q'.elapse d).step .daemon).store = (q.store.promoteDue q.keys t limit).2 := by
  obtain ⟨hcalls, hphase⟩ := h.calls hf hw
  rw [if_pos hb] at hphase
  have hlen := h.length q.batch (Full.le_nanos hw)
  rw [Space.length_dueEntries hi] at hlen
  have hshort : q.space.backlog t < (n + 1) * q.batch := by rw [Nat.succ_mul]; omega
  have hstore : ((q'.elapse d).step .daemon).store = (q'.store.promoteDue q.keys t q.batch).2 :=
    h.keys ▸ h.batch ▸ hcalls.store
  refine ⟨?_, hphase, ?_, ?_, fun limit hl => ?_⟩
  · exact (Nat.div_eq_of_lt_le (h.mul_le hi hw) hshort).symm
  · exact hcalls.count.trans (congrArg (· + 1) h.count)
  · exact (keys_of_setting hcalls.setting).trans h.keys
  · rw [hstore, h.store _ (Full.le_nanos hw), ← Nat.succ_mul]
    exact Store.promoteDue_congr (Space.dueEntries_of_backlog_le hi (Nat.le_of_lt hshort) hl)

/-- Batches do not come back full forever. -/
theorem exists_short (hp : q.InPass 0) (hf : ∀ n, (.promote, n) ∉ q.faults.plan)
    (hi : q.space.Indexed) (hb : 0 < q.batch)
    (hw : ∀ n, (∀ j ≤ n, ∃ total, (q.pass gaps j).InPass total) →
      ∃ t, ((q.pass gaps n).elapse (gaps n)).wall = .ok t) :
    ∃ n t, (∀ j ≤ n, Full j q (q.pass gaps j)) ∧
      ((q.pass gaps n).elapse (gaps n)).wall = .ok t ∧
      ((q.pass gaps n).space.dueEntries t q.batch).length < q.batch := by
  by_contra hno
  have hfull (n : Nat) : ∀ j ≤ n, Full j q (q.pass gaps j) := by
    induction n with
    | zero =>
      intro j hj
      rw [Nat.le_zero.mp hj]
      exact full_zero hp
    | succ n ih =>
      intro j hj
      rcases Nat.le_succ_iff.mp hj with hj | rfl
      · exact ih j hj
      · obtain ⟨t, ht⟩ := hw n fun i hi => ⟨_, (ih i hi).inPass⟩
        have hle := Nat.not_lt.mp fun hlt => hno ⟨n, t, ih, ht, hlt⟩
        exact (ih n (Nat.le_refl n)).succ hf ht hle
  -- more batches than there are pending ids
  have hall := hfull (q.space.pending.size + 1)
  have hmany := hall _ (Nat.le_refl _)
  obtain ⟨t, ht⟩ := hw _ fun i hi => ⟨_, (hall i hi).inPass⟩
  have hle := Nat.le_trans (hmany.mul_le hi ht) Space.backlog_le_size
  have hlt : q.space.pending.size + 1 ≤ (q.space.pending.size + 1) * q.batch :=
    Nat.le_mul_of_pos_right _ hb
  omega

end Full

section Reachable

variable {c : Config} {faults : Faults} {begun : Clocks} {ids : MessageId.Source} {observed : Bool}
  {q₀ : Queue} {es : List Event}

theorem indexed_live (hq : Queue.new c faults begun ids observed = .ok q₀) :
    (q₀.live es).space.Indexed := by
  have h₀ : q₀.space.Indexed := by
    rw [space, (balanced_new hq).keys]
    exact (balanced_new hq).ledger.indexed
  exact Books.indexed_of_steps (follows_true es).steps h₀

/-- Whatever has happened, a pass of the daemon comes to an end if nothing else happens meanwhile
and if the clock can be read. It makes as many calls as there are whole batches among what has
fallen due at its last reading, and one more, which ends it. The store is then what a single
promotion at the last reading makes of it that has room for all of this: nothing is pending
that has fallen due, and the ready list has got the ids that had, once each, by their times and
bytes, at its end. The rows are what they were. -/
theorem pass_promotes_all (hq : Queue.new c faults begun ids observed = .ok q₀)
    (hr : q₀.live es = q) (hp : q.InPass 0) (hf : ∀ n, (.promote, n) ∉ q.faults.plan)
    (hw : ∀ n, (∀ j ≤ n, ∃ total, (q.pass gaps j).InPass total) →
      ∃ t, ((q.pass gaps n).elapse (gaps n)).wall = .ok t) :
    ∃ n last, (∀ j ≤ n, ∃ total, (q.pass gaps j).InPass total) ∧ (q.pass gaps (n + 1)).Rests ∧
      n = q.space.backlog last / c.promoteBatchSize.toNat ∧
      (q.pass gaps (n + 1)).faults.count .promote = q.faults.count .promote + (n + 1) ∧
      ((q.pass gaps n).elapse (gaps n)).wall = .ok last ∧
      (∀ limit, q.space.backlog last ≤ limit →
        (q.pass gaps (n + 1)).store = (q.store.promoteDue q.keys last limit).2) ∧
      (∀ x t, (q.pass gaps (n + 1)).space.score? x = some t → last.millis < t) ∧
      (q.pass gaps (n + 1)).space.rows = q.space.rows ∧
      ∃ moved : List (Score × String),
        (q.pass gaps (n + 1)).space.ready = q.space.ready ++ moved.map Prod.snd ∧
        moved.Pairwise Space.Precedes ∧ (moved.map Prod.snd).Nodup ∧
        ∀ t x, (t, x) ∈ moved ↔ q.space.score? x = some t ∧ t ≤ last.millis := by
  have hi : q.space.Indexed := hr ▸ indexed_live hq
  have hc : q.config = c := hr ▸ (follows_true es).config.trans (balanced_new hq).config
  have hb : 0 < q.batch := by
    rw [batch, hc]
    exact Config.promoteBatchSize_pos (validate_of_new hq)
  obtain ⟨n, last, hfull, hlast, hshort⟩ := exists_short hp hf hi hb hw
  obtain ⟨hn, hrests, hcount, hkeys, hstore⟩ :=
    (hfull n (Nat.le_refl n)).ends hf hi hlast hshort
  have hspace : (q.pass gaps (n + 1)).space =
      (q.space.promoteDue last q.space.pending.size).2 := by
    rw [space, pass, hkeys, hstore _ Space.backlog_le_size]
    exact Store.space_promoteDue
  refine ⟨n, last, fun j hj => ⟨_, (hfull j hj).inPass⟩, hrests, hc ▸ hn, hcount, hlast, hstore,
    ?_, ?_, q.space.dueEntries last q.space.pending.size, ?_, Space.pairwise_dueEntries,
    hi.nodup_due, fun t x => Space.mem_dueEntries_iff hi (Nat.le_refl _)⟩
  · rw [hspace]
    exact fun x t hx => Space.lt_of_score?_promoteDue hi (Nat.le_refl _) hx
  · rw [hspace]
    exact Space.rows_foldl_promoteEntry
  · rw [hspace]
    exact Space.ready_promoteDue

/-- A queue whose daemon moves two ids at a time. -/
def pairsQueue : Queue := { soloQueue with config := { promoteBatchSize := 2 } }

/-- Five messages fall due within three milliseconds, and a pass begins. -/
def fallingDue : List Event :=
  [("c", 1), ("a", 2), ("e", 3), ("b", 1), ("d", 2)].map (fun (id, ms) =>
    .outside (.ofName "default") (.produce ⟨id, [1], .epoch, Time.ofMillis? ms, none, 0⟩ .epoch)) ++
  [.move (.consume (fun _ => .finish .success) true), .move (.step .daemon), .move (.step .daemon)]

/-- The clock goes on by a millisecond before each call. -/
theorem pass_promotes_all_pairs : ∃ q : Queue,
    Queue.new { promoteBatchSize := 2 } .none ⟨.epoch, 0⟩ ⟨0, 0⟩ false = .ok pairsQueue ∧
    pairsQueue.live fallingDue = q ∧ q.InPass 0 ∧ (∀ n, (.promote, n) ∉ q.faults.plan) ∧
    (∀ n, (∀ j ≤ n, ∃ total, (q.pass (fun _ => .ofMillis 1) j).InPass total) →
      ∃ t, ((q.pass (fun _ => .ofMillis 1) n).elapse (.ofMillis 1)).wall = .ok t) ∧
    (q.pass (fun _ => .ofMillis 1) 3).space.ready = ["b", "c", "a", "d", "e"] ∧
    ∃ n last, (q.pass (fun _ => .ofMillis 1) (n + 1)).Rests ∧ n = q.space.backlog last / 2 ∧
      ((q.pass (fun _ => .ofMillis 1) n).elapse (.ofMillis 1)).wall = .ok last ∧
      ∀ limit, q.space.backlog last ≤ limit → (q.pass (fun _ => .ofMillis 1) (n + 1)).store =
        (q.store.promoteDue q.keys last limit).2 := by
  have hq : Queue.new { promoteBatchSize := 2 } .none ⟨.epoch, 0⟩ ⟨0, 0⟩ false = .ok pairsQueue :=
    rfl
  have hp : (pairsQueue.live fallingDue).InPass 0 := by decide +kernel
  have hf : ∀ n, (.promote, n) ∉ (pairsQueue.live fallingDue).faults.plan := by
    have hnil : (pairsQueue.live fallingDue).faults.plan = [] := by decide +kernel
    rw [hnil]
    exact fun n => List.not_mem_nil
  have hw : ∀ n, (∀ j ≤ n, ∃ total,
        ((pairsQueue.live fallingDue).pass (fun _ => .ofMillis 1) j).InPass total) →
      ∃ t, (((pairsQueue.live fallingDue).pass (fun _ => .ofMillis 1) n).elapse
        (.ofMillis 1)).wall = .ok t := by
    intro n hn
    have hrests : ((pairsQueue.live fallingDue).pass (fun _ => .ofMillis 1) 3).Rests := by
      decide +kernel
    have hlt : n < 3 := Nat.lt_of_not_le fun hle =>
      (hn 3 hle).elim fun _ hp => hrests.not_inPass hp
    have hread : ∀ i < 3, (((pairsQueue.live fallingDue).pass (fun _ => .ofMillis 1) i).elapse
        (.ofMillis 1)).wall.isOk = true := by decide +kernel
    cases he : (((pairsQueue.live fallingDue).pass (fun _ => .ofMillis 1) n).elapse
        (.ofMillis 1)).wall with
    | ok t => exact ⟨t, rfl⟩
    | error p =>
      have hok := hread n hlt
      rw [he] at hok
      cases hok
  obtain ⟨n, last, -, hrests, hn, -, hlast, hstore, -⟩ := pass_promotes_all hq rfl hp hf hw
  exact ⟨_, hq, rfl, hp, hf, hw, by decide +kernel, n, last, hrests, hn, hlast, hstore⟩

end Reachable

end Queue

end DelayedQueue
