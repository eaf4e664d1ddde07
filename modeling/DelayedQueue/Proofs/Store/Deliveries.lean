import DelayedQueue.Proofs.Message.RoundTrip
import DelayedQueue.Proofs.Store.Placement

/-! # Delivery histories

The row of a message that was produced once tells how often it has been handed out and for
when it was last set. Every take and every reschedule reads the row, changes one field or two
and writes it again, so this holds of the whole row or of nothing.
-/

namespace DelayedQueue

/-- `m'` is what a row tells of `m` after `n` deliveries, if it was last set for `d`. -/
structure Message.Retold (m m' : Message) (n : Nat) (d : Option Time) : Prop where
  id : m'.id = m.id
  payload : m'.payload = m.payload
  createAt : m'.createAt = m.createAt.floorMillis
  deliverAt : m'.deliverAt = d.map Time.floorMillis
  deliveries : m'.deliveries.toNat = n

namespace Message.Retold

variable {m m' : Message} {n : Nat} {d : Option Time}

theorem produced (h : m.deliveries = 0) : m.Retold m.floorMillis 0 m.deliverAt :=
  ⟨rfl, rfl, rfl, rfl, by simp [floorMillis, h]⟩

theorem map_floorMillis (d : Option Time) :
    (d.map Time.floorMillis).map Time.floorMillis = d.map Time.floorMillis := by
  cases d <;> simp [Time.floorMillis_floorMillis]

theorem createAt_floorMillis (h : m.Retold m' n d) :
    m'.createAt.floorMillis = m.createAt.floorMillis := by
  rw [h.createAt, Time.floorMillis_floorMillis]

theorem toNat_add_one_of_lt {n cap : UInt64} (h : n < cap) : (n + 1).toNat = n.toNat + 1 := by
  have hlt := UInt64.lt_iff_toNat_lt.mp h
  have hcap := cap.toNat_lt
  rw [UInt64.toNat_add, UInt64.toNat_one, Nat.mod_eq_of_lt (by omega)]

/-- A delivery counts itself. The count stays below the cap, so it cannot wrap. -/
theorem delivered {cap : UInt64} (h : m.Retold m' n d) (hc : m'.deliveries < cap) (now : Time) :
    m.Retold (floorMillis { m' with deliveries := m'.deliveries + 1, redeliverAt := some now })
      (n + 1) d where
  id := h.id
  payload := h.payload
  createAt := h.createAt_floorMillis
  deliverAt := by
    change m'.deliverAt.map Time.floorMillis = _
    rw [h.deliverAt, map_floorMillis]
  deliveries := by
    change (m'.deliveries + 1).toNat = n + 1
    rw [toNat_add_one_of_lt hc, h.deliveries]

theorem rescheduled (h : m.Retold m' n d) (t : Time) :
    m.Retold (floorMillis { m' with deliverAt := some t }) n (some t) where
  id := h.id
  payload := h.payload
  createAt := h.createAt_floorMillis
  deliverAt := rfl
  deliveries := h.deliveries

end Message.Retold

namespace Space

variable {s : Space} {x : String} {op : StoreOp} {m : Message} {n : Nat} {d : Option Time}
  {row : Bytes}

/-- The row that an operation hands out for `x`. -/
def handedOut? (s : Space) (x : String) (op : StoreOp) : Option Bytes :=
  match (s.apply op).1 with
  | .took (.taken row) => if s.ready.head? = some x then some row else none
  | _ => none

/-- The time for which an operation sets `x` anew, if `x` is stored. -/
def rescheduled? (s : Space) (x : String) : StoreOp → Option Time
  | .reschedule id t => if id = x ∧ (s.reschedule id t).1 = true then some t else none
  | _ => none

/-- The space has the message in its place, and its row if any tells of `n` deliveries. -/
structure Tracks (s : Space) (m : Message) (n : Nat) (d : Option Time) : Prop where
  indexed : s.Indexed
  sound : (s.place m.id).Sound
  retold : ∀ row, s.row? m.id = some row → ∃ m', Row.decode row = .ok m' ∧ m.Retold m' n d

section Step

theorem handedOut?_eq_some (h : s.handedOut? x op = some row) : ∃ retry cap now,
    op = .take retry cap now ∧ s.ready.head? = some x ∧
      (s.takeOne retry cap now).1 = .taken row := by
  unfold handedOut? at h
  cases op with
  | take retry cap now =>
    simp only [apply] at h
    split at h
    · next row' ht =>
      split at h
      · next hh => cases h; exact ⟨retry, cap, now, rfl, hh, by simpa using ht⟩
      · cases h
    · cases h
  | _ => simp [apply] at h

theorem Tracks.of_handedOut (h : s.Tracks m n d) {retry : Duration} {cap : UInt64} {now : Time}
    (ho : s.handedOut? m.id (.take retry cap now) = some row) :
    n < cap.toNat ∧ (s.takeOne retry cap now).2.row? m.id = some row ∧
      ∃ m', Row.decode row = .ok m' ∧ m.Retold m' (n + 1) d ∧
        m'.redeliverAt = some now.floorMillis := by
  obtain ⟨_, _, _, ⟨⟩, hh, ht⟩ := handedOut?_eq_some ho
  have hp := pop_of_head retry cap now hh
  rw [ht] at hp
  generalize hq : (s.takeOne retry cap now).2.place m.id = q at hp
  have hrow : (s.takeOne retry cap now).2.row? m.id = q.row := congrArg Place.row hq
  cases hp with
  | unreadable hr hf =>
    obtain ⟨m', hm', -⟩ := h.retold _ hr
    rw [hm'] at hf; cases hf
  | @delivered row' m' hr hm hlt =>
    obtain ⟨m'', hm'', hret⟩ := h.retold _ hr
    obtain rfl : m' = m'' := by rw [hm] at hm''; exact Except.ok.inj hm''
    refine ⟨?_, hrow, _, Row.decode_encode _, hret.delivered hlt now, rfl⟩
    have := UInt64.lt_iff_toNat_lt.mp hlt
    rwa [hret.deliveries] at this

theorem handedOut?_of_taken {retry : Duration} {cap : UInt64} {now : Time}
    (hh : s.ready.head? = some x) (ht : (s.takeOne retry cap now).1 = .taken row) :
    s.handedOut? x (.take retry cap now) = some row := by
  simp [handedOut?, apply, hh, ht]

theorem rescheduled?_of_not_touches (h : ¬ s.Touches x op) : s.rescheduled? x op = none := by
  cases op with
  | reschedule id t =>
    refine if_neg fun ⟨hid, hf⟩ => ?_
    subst hid
    have hr : s.row? id = none := not_not.mp fun hr => h ⟨rfl, hr⟩
    rw [reschedule_of_none hr] at hf
    cases hf
  | _ => rfl

theorem row?_apply (hi : s.Indexed) (hn : x ∉ op.produced) (hw : op.isRaw = false)
    (ho : s.handedOut? x op = none) :
    (s.apply op).2.row? x = none ∨
    ((s.apply op).2.row? x = s.row? x ∧ s.rescheduled? x op = none) ∨
    ∃ row t, s.row? x = some row ∧ (s.apply op).2.row? x = some (rescheduledRow row t) ∧
      s.rescheduled? x op = some t := by
  have hp := effect_apply hi x op
  generalize hq : (s.apply op).2.place x = p at hp
  have hrow : (s.apply op).2.row? x = p.row := congrArg Place.row hq
  cases hp with
  | spared h => exact .inr (.inl ⟨hrow, rescheduled?_of_not_touches h⟩)
  | readied h | delayed h => exact absurd (by simp [StoreOp.produced, h]) hn
  | @popped retry cap now p hh hp =>
    have hnt : ∀ row, (s.takeOne retry cap now).1 ≠ .taken row := by
      intro row ht
      rw [handedOut?_of_taken hh ht] at ho; cases ho
    generalize ht : (s.takeOne retry cap now).1 = k at hp
    cases hp with
    | dangling | exhausted => exact .inl hrow
    | unreadable | delivered => exact absurd ht (hnt _)
  | committed | purged => exact .inl hrow
  | rescheduled hr =>
    refine .inr (.inr ⟨_, _, hr, hrow, ?_⟩)
    simp [rescheduled?, reschedule_of_some hr]
  | promoted => exact .inr (.inl ⟨hrow, rfl⟩)
  | overwritten => cases hw

theorem Tracks.apply (h : s.Tracks m n d) (hn : m.id ∉ op.produced) (hw : op.isRaw = false) :
    (s.apply op).2.Tracks m (if (s.handedOut? m.id op).isSome then n + 1 else n)
      (s.rescheduled? m.id op <|> d) where
  indexed := h.indexed.apply op
  sound := by
    refine sound_apply h.indexed h.sound (fun hx => absurd hx hn) ?_
    rintro row rfl; simp [StoreOp.isRaw] at hw
  retold row hr := by
    cases ho : s.handedOut? m.id op with
    | some row' =>
      obtain ⟨retry, cap, now, rfl, -, -⟩ := handedOut?_eq_some ho
      obtain ⟨-, hrow, m', hm', hret, -⟩ := h.of_handedOut ho
      obtain rfl : row = row' := Option.some.inj (hr.symm.trans hrow)
      exact ⟨m', hm', hret⟩
    | none =>
      rcases row?_apply h.indexed hn hw ho with hnone | ⟨hsame, ht⟩ | ⟨row', t, hr', hrow, ht⟩
      · rw [hnone] at hr; cases hr
      · rw [hsame] at hr
        rw [ht]
        exact h.retold row hr
      · obtain ⟨m', hm', hret⟩ := h.retold row' hr'
        have he : rescheduledRow row' t = Row.encode { m' with deliverAt := some t } := by
          simp only [rescheduledRow, hm']
        rw [hrow, he] at hr
        cases hr
        rw [ht]
        exact ⟨_, Row.decode_encode _, hret.rescheduled t⟩

end Step

section Runs

/-- Every operation of a run with the space that it met. -/
def history (s : Space) : List StoreOp → List (Space × StoreOp)
  | [] => []
  | op :: ops => (s, op) :: (s.apply op).2.history ops

theorem history_concat (ops : List StoreOp) (op : StoreOp) :
    s.history (ops ++ [op]) = s.history ops ++ [(s.run ops, op)] := by
  induction ops generalizing s with
  | nil => rfl
  | cons op' ops ih => exact congrArg ((s, op') :: ·) (ih (s := (s.apply op').2))

/-- How often `x` is handed out. -/
def handouts (x : String) (h : List (Space × StoreOp)) : Nat :=
  h.countP fun e => (e.1.handedOut? x e.2).isSome

/-- The time for which `x` is set last. -/
def lastRescheduled? (x : String) (h : List (Space × StoreOp)) : Option Time :=
  (h.filterMap fun e => e.1.rescheduled? x e.2).getLast?

/-- The operations do not produce `x` and write no row past the encoding. -/
def Sparing (x : String) (ops : List StoreOp) : Prop :=
  ∀ op ∈ ops, x ∉ op.produced ∧ op.isRaw = false

theorem Sparing.of_concat {ops : List StoreOp} (h : Sparing x (ops ++ [op])) :
    Sparing x ops ∧ x ∉ op.produced ∧ op.isRaw = false :=
  ⟨fun o ho => h o (List.mem_append_left _ ho), h op (by simp)⟩

theorem handouts_concat {h : List (Space × StoreOp)} : handouts x (h ++ [(s, op)]) =
    if (s.handedOut? x op).isSome then handouts x h + 1 else handouts x h := by
  simp only [handouts, List.countP_append, List.countP_singleton]
  split <;> rfl

theorem lastRescheduled?_concat {h : List (Space × StoreOp)} :
    lastRescheduled? x (h ++ [(s, op)]) = (s.rescheduled? x op <|> lastRescheduled? x h) := by
  simp only [lastRescheduled?, List.filterMap_append, List.filterMap_cons, List.filterMap_nil]
  cases s.rescheduled? x op <;> simp

theorem Tracks.run {ops : List StoreOp} (h : s.Tracks m 0 d) (hops : Sparing m.id ops) :
    (s.run ops).Tracks m (handouts m.id (s.history ops))
      (lastRescheduled? m.id (s.history ops) <|> d) := by
  induction ops using List.reverseRecOn with
  | nil => exact h
  | append_singleton ops op ih =>
    obtain ⟨hops', hn, hw⟩ := hops.of_concat
    have hassoc : ∀ a b c : Option Time, ((a <|> b) <|> c) = (a <|> (b <|> c)) := by
      intro a b c; cases a <;> rfl
    rw [run_concat, history_concat, handouts_concat, lastRescheduled?_concat, hassoc]
    exact (ih hops').apply hn hw

theorem tracks_produce (hi : s.Indexed) (hv : s.place m.id = .vacant) (h0 : m.deliveries = 0)
    (now : Time) : (s.produce m now).Tracks m 0 m.deliverAt where
  indexed := hi.produce m now
  sound := by
    have h : ((s.apply (.produce m now)).2.place m.id).Sound :=
      sound_apply hi (hv ▸ Place.sound_vacant) (fun _ => hv) nofun
    exact h
  retold row hr := by
    cases hr.symm.trans row?_produce_self
    exact ⟨_, Row.decode_encode m, .produced h0⟩

theorem Tracks.handouts_le {ops : List StoreOp} {cap : UInt64} (h : s.Tracks m 0 d)
    (hops : Sparing m.id ops)
    (hcap : ∀ retry cap' now, .take retry cap' now ∈ ops → cap' = cap) :
    handouts m.id (s.history ops) ≤ cap.toNat := by
  induction ops using List.reverseRecOn with
  | nil => exact Nat.zero_le _
  | append_singleton ops op ih =>
    obtain ⟨hops', -, -⟩ := hops.of_concat
    have ih := ih hops' fun retry cap' now hm => hcap retry cap' now (List.mem_append_left _ hm)
    rw [history_concat, handouts_concat]
    cases ho : (s.run ops).handedOut? m.id op with
    | none => exact ih
    | some row =>
      obtain ⟨retry, cap', now, rfl, -, -⟩ := handedOut?_eq_some ho
      obtain rfl := hcap retry cap' now (by simp)
      exact ((h.run hops').of_handedOut ho).1

theorem Tracks.backed_run {ops : List StoreOp} (h : s.Tracks m 0 d)
    (hb : m.id ∈ s.ready → s.row? m.id ≠ none) (hops : Sparing m.id ops)
    (hc : .commit m.id ∉ ops) : m.id ∈ (s.run ops).ready → (s.run ops).row? m.id ≠ none := by
  induction ops using List.reverseRecOn with
  | nil => exact hb
  | append_singleton ops op ih =>
    obtain ⟨hops', -, -⟩ := hops.of_concat
    have hc' : .commit m.id ∉ ops := fun hm => hc (List.mem_append_left _ hm)
    have ht := h.run hops'
    intro hr
    rw [run_concat] at hr ⊢
    exact backed_apply ht.indexed ht.sound (fun hx => ih hops' hc' (copies_ne_zero.mp hx))
      (fun he => hc (by simp [he])) (copies_ne_zero.mpr hr)

theorem vacant_run {ops : List StoreOp} (hops : Sparing x ops) :
    (empty.run ops).place x = .vacant := by
  induction ops using List.reverseRecOn with
  | nil => exact place_empty
  | append_singleton ops op ih =>
    obtain ⟨hops', hn, hw⟩ := hops.of_concat
    rw [run_concat]
    refine vacant_apply (indexed_empty.run ops) (ih hops') hn fun row he => ?_
    rw [he] at hw; simp [StoreOp.isRaw] at hw

theorem Tracks.exhausted {retry : Duration} {cap : UInt64} {now : Time}
    (h : s.Tracks m cap.toNat d) (hh : s.ready.head? = some m.id) (hr : s.row? m.id ≠ none) :
    (s.takeOne retry cap now).1 = .exhausted m.id cap := by
  have hp := pop_of_head retry cap now hh
  obtain ⟨row, hrow⟩ := Option.ne_none_iff_exists'.mp hr
  obtain ⟨m', hm', hret⟩ := h.retold row hrow
  have hcap : m'.deliveries = cap := UInt64.toNat_inj.mp hret.deliveries
  generalize (s.takeOne retry cap now).1 = k at hp
  generalize (s.takeOne retry cap now).2.place m.id = q at hp
  cases hp with
  | dangling hn => exact absurd hn hr
  | unreadable hr' hf =>
    obtain rfl := Option.some.inj (hrow.symm.trans hr')
    rw [hm'] at hf; cases hf
  | exhausted hr' hm _ =>
    obtain rfl := Option.some.inj (hrow.symm.trans hr')
    obtain rfl := Except.ok.inj (hm'.symm.trans hm)
    rw [hcap]
  | delivered hr' hm hlt =>
    obtain rfl := Option.some.inj (hrow.symm.trans hr')
    obtain rfl := Except.ok.inj (hm'.symm.trans hm)
    rw [hcap] at hlt
    exact absurd hlt (UInt64.lt_irrefl _)

end Runs

end Space

namespace Store

variable {s : Store} {k : Keys}

open Space (Sparing handouts lastRescheduled?)

/-- Every operation on a queue with the space that it met there. -/
def history (s : Store) (k : Keys) : List (Keys × StoreOp) → List (Space × StoreOp)
  | [] => []
  | (k', op) :: ops =>
    (if k'.data = k.data then [(s.space k, op)] else []) ++ (s.apply k' op).2.history k ops

theorem history_eq (ops : List (Keys × StoreOp)) :
    s.history k ops = (s.space k).history (opsOn k ops) := by
  induction ops generalizing s with
  | nil => rfl
  | cons o ops ih =>
    obtain ⟨k', op⟩ := o
    rw [history, ih]
    by_cases h : k'.data = k.data
    · rw [apply_of_data_eq h, space_apply]
      simp [opsOn, h, Space.history]
    · rw [space_apply_of_ne h]
      simp [opsOn, h]

/-- The history of a message that is produced once on a queue. Each take that hands it out gives
the message with the takes so far counted, and once the takes have used up a common cap the
next one drops the message. -/
theorem delivery_history {m : Message} {t : Time} {before after : List (Keys × StoreOp)}
    (h0 : m.deliveries = 0) (hb : Sparing m.id (opsOn k before))
    (ha : Sparing m.id (opsOn k after)) :
    let produced := ((empty.runAll before).apply k (.produce m t)).2
    let s := produced.runAll after
    let past := produced.history k after
    (∀ retry cap now row, (s.space k).ready.head? = some m.id →
      (s.apply k (.take retry cap now)).1 = .took (.taken row) →
      ∃ m', Row.decode row = .ok m' ∧ m'.id = m.id ∧ m'.payload = m.payload ∧
        m'.createAt = m.createAt.floorMillis ∧
        m'.deliverAt = (lastRescheduled? m.id past <|> m.deliverAt).map Time.floorMillis ∧
        m'.redeliverAt = some now.floorMillis ∧
        m'.deliveries.toNat = handouts m.id past + 1) ∧
    ∀ cap, (∀ retry cap' now, .take retry cap' now ∈ opsOn k after → cap' = cap) →
      handouts m.id past ≤ cap.toNat ∧
      (handouts m.id past = cap.toNat → .commit m.id ∉ opsOn k after →
        (s.space k).ready.head? = some m.id → ∀ retry now,
          (s.apply k (.take retry cap now)).1 = .took (.exhausted m.id cap)) := by
  intro produced s past
  have hspace : produced.space k = ((Space.empty.run (opsOn k before)).produce m t) := by
    rw [space_apply, space_runAll, space_empty]; rfl
  have hstart : (produced.space k).Tracks m 0 m.deliverAt := by
    rw [hspace]
    exact Space.tracks_produce (Space.indexed_empty.run _) (Space.vacant_run hb) h0 t
  have hrow : (produced.space k).row? m.id ≠ none := by
    rw [hspace, Space.row?_produce_self]
    exact Option.some_ne_none _
  have hs : s.space k = (produced.space k).run (opsOn k after) := space_runAll after
  have htracks := hstart.run ha
  rw [← hs, ← history_eq] at htracks
  constructor
  · intro retry cap now row hh ht
    rw [apply_fst] at ht
    obtain ⟨-, -, m', hm', hret, hre⟩ := htracks.of_handedOut
      (Space.handedOut?_of_taken hh (StoreResult.took.inj ht))
    exact ⟨m', hm', hret.id, hret.payload, hret.createAt, hret.deliverAt, hre, hret.deliveries⟩
  · intro cap hcap
    constructor
    · have hle := hstart.handouts_le ha hcap
      rwa [← history_eq] at hle
    · intro hn hc hh retry now
      have hr := hstart.backed_run (fun _ => hrow) ha hc
      rw [← hs] at hr
      rw [show handouts m.id (produced.history k after) = cap.toNat from hn] at htracks
      rw [apply_fst]
      exact congrArg StoreResult.took (htracks.exhausted hh (hr (List.mem_of_mem_head? hh)))

/-- A message that is handed out, set anew, promoted and handed out again, while another queue
has a message of the same id. -/
def toldMessage : Message := ⟨"a", [1], .epoch, none, none, 0⟩

def toldBefore : List (Keys × StoreOp) := [(.ofName "p", .produce toldMessage .epoch)]

def toldAfter : List (Keys × StoreOp) :=
  [(.ofName "q", .take (.ofMillis 5) 2 .epoch), (.ofName "q", .reschedule "a" .latest),
    (.ofName "p", .commit "a"), (.ofName "q", .promote .latest 1)]

theorem delivery_history_told : toldMessage.deliveries = 0 ∧
    Sparing "a" (opsOn (.ofName "q") toldBefore) ∧ Sparing "a" (opsOn (.ofName "q") toldAfter) ∧
    (∃ m', Row.decode (Row.encode ⟨"a", [1], .epoch, some .latest, some .epoch, 2⟩) = .ok m' ∧
      m'.deliverAt = some Time.latest.floorMillis ∧ m'.deliveries.toNat = 2) ∧
    handouts "a" (((empty.runAll toldBefore).apply (.ofName "q")
      (.produce toldMessage .epoch)).2.history (.ofName "q") toldAfter) ≤ 2 := by
  have hb : Sparing "a" (opsOn (.ofName "q") toldBefore) := by unfold Sparing; decide +kernel
  have ha : Sparing "a" (opsOn (.ofName "q") toldAfter) := by unfold Sparing; decide +kernel
  have h := delivery_history (k := .ofName "q") (m := toldMessage) (t := .epoch) rfl hb ha
  obtain ⟨m', hm, -, -, -, hd, -, hn⟩ := h.1 (.ofMillis 5) 2 .epoch _ (by decide +kernel)
    (by decide +kernel : _ = StoreResult.took (.taken
      (Row.encode ⟨"a", [1], .epoch, some .latest, some .epoch, 2⟩)))
  refine ⟨rfl, hb, ha, ⟨m', hm, hd.trans (by decide +kernel), hn.trans (by decide +kernel)⟩, ?_⟩
  have hops : opsOn (.ofName "q") toldAfter = [.take (.ofMillis 5) 2 .epoch,
      .reschedule "a" .latest, .promote .latest 1] := by decide +kernel
  refine (h.2 2 ?_).1
  rintro retry cap now hm
  simp only [hops, List.mem_cons, StoreOp.take.injEq, reduceCtorEq, List.not_mem_nil,
    or_false] at hm
  exact hm.2.1

end Store

end DelayedQueue
