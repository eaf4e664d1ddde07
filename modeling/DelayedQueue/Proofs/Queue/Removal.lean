import DelayedQueue.Proofs.Queue.Books
import DelayedQueue.Proofs.Queue.Shutdown
import DelayedQueue.Proofs.Store.Removal

/-! # No resurrection

Once the row of a message is gone there is nothing left that a handler could be given of it, so
none begins with it any more. A handler is given the message that a row holds, whatever the id
under which it is stored; a queue itself stores each message under its own id.
-/

namespace DelayedQueue

/-- Only the row of `x` holds a message `x`. -/
def Space.Proper (s : Space) (x : String) : Prop :=
  ∀ y row m, s.row? y = some row → Row.decode row = .ok m → m.id = x → y = x

/-- The operation puts no row that holds a message `x` under another id. -/
def StoreOp.Proper (x : String) (op : StoreOp) : Prop :=
  ∀ y row m, op = .putRow y row → Row.decode row = .ok m → m.id = x → y = x

theorem StoreOp.proper_of_isRaw {op : StoreOp} (h : op.isRaw = false) (x : String) :
    op.Proper x := by
  rintro _ _ _ rfl
  cases h

namespace Space

variable {s : Space} {x y : String} {op : StoreOp} {m m' : Message} {row : Bytes}

theorem proper_empty : empty.Proper x := by
  intro y row m hr
  simp [row?, empty] at hr

theorem id_of_encode (hm : Row.decode (Row.encode m) = .ok m') : m'.id = m.id := by
  rw [Row.decode_encode] at hm
  cases hm
  rfl

theorem id_of_rescheduledRow {t : Time} (hm : Row.decode (rescheduledRow row t) = .ok m) :
    ∃ m', Row.decode row = .ok m' ∧ m.id = m'.id := by
  unfold rescheduledRow at hm
  cases hd : Row.decode row with
  | error f =>
    simp only [hd] at hm
    cases hm
  | ok m' =>
    simp only [hd] at hm
    exact ⟨m', rfl, (id_of_encode hm :)⟩

theorem Proper.apply (h : s.Proper x) (hi : s.Indexed) (ho : op.Proper x) :
    (s.apply op).2.Proper x := by
  intro y row m hr hm hx
  have hp := effect_apply hi y op
  generalize hq : (s.apply op).2.place y = p at hp
  replace hr : p.row = some row := (congrArg Place.row hq).symm.trans hr
  cases hp with
  | spared | promoted => exact h y row m hr hm hx
  | readied hy | delayed hy =>
    cases hr
    rw [← hy, ← hx]
    exact (id_of_encode hm).symm
  | @popped retry cap now p hh hp =>
    generalize (s.takeOne retry cap now).1 = k at hp
    cases hp with
    | dangling | exhausted => cases hr
    | unreadable hs hf =>
      cases hr
      rw [hf] at hm; cases hm
    | delivered hs hd =>
      cases hr
      exact h y _ _ hs hd ((id_of_encode hm).symm.trans hx)
  | committed | purged => cases hr
  | rescheduled hs =>
    cases hr
    obtain ⟨m', hd, he⟩ := id_of_rescheduledRow hm
    exact h y _ m' hs hd (he.symm.trans hx)
  | overwritten => cases hr; exact ho y row m rfl hm hx

theorem Proper.id_ne_of_taken {retry : Duration} {cap : UInt64} {now : Time} (h : s.Proper x)
    (hn : ∀ row m, s.row? x = some row → Row.decode row ≠ .ok m)
    (ht : (s.takeOne retry cap now).1 = .taken row) (hm : Row.decode row = .ok m) : m.id ≠ x := by
  intro hx
  obtain ⟨y, hy⟩ : ∃ y, s.ready.head? = some y := by
    cases hs : s.ready with
    | nil => rw [takeOne_of_nil hs] at ht; cases ht
    | cons y rest => exact ⟨y, rfl⟩
  have hp := pop_of_head retry cap now hy
  rw [ht] at hp
  generalize (s.takeOne retry cap now).2.place y = p at hp
  have hne {row' : Bytes} {m' : Message} (hr : s.row? y = some row')
      (hd : Row.decode row' = .ok m') : y ≠ x := by
    rintro rfl
    exact hn row' m' hr hd
  cases hp with
  | unreadable hs hf => rw [hf] at hm; cases hm
  | delivered hs hd => exact hne hs hd (h y _ _ hs hd ((id_of_encode hm).symm.trans hx))

end Space

namespace Books

variable {c : Config} {ids : MessageId.Source} {direct : StoreOp → Prop} {b b' : Books}
  {x : String}

/-- A step changes the space by one operation at most; what the queue itself does writes no raw
row, and produces no message but the next one. -/
theorem Step.exists_op (h : Step c ids direct b b') : b.serial ≤ b'.serial ∧
    (b'.space = b.space ∨ ∃ op, b'.space = (b.space.apply op).2 ∧
      (direct op ∨ op.isRaw = false ∧ ∀ y ∈ op.produced, y = ids.id b.serial)) := by
  cases h with
  | noted => exact ⟨Nat.le_refl _, .inl rfl⟩
  | @produced m now hm =>
    refine ⟨Nat.le_succ _, .inr ⟨.produce m now, rfl, .inr ⟨rfl, fun y hy => ?_⟩⟩⟩
    exact (List.mem_singleton.mp hy).trans hm
  | @timed op ho =>
    refine ⟨Nat.le_refl _, .inr ⟨op, rfl, .inr ?_⟩⟩
    cases op with
    | reschedule | promote => exact ⟨rfl, nofun⟩
    | _ => cases ho
  | @direct op ho => exact ⟨Nat.le_refl _, .inr ⟨op, rfl, .inl ho⟩⟩
  | took | handed => exact ⟨Nat.le_refl _, .inr ⟨.take _ _ _, rfl, .inr ⟨rfl, nofun⟩⟩⟩
  | committed t i y => exact ⟨Nat.le_refl _, .inr ⟨.commit y, rfl, .inr ⟨rfl, nofun⟩⟩⟩

/-- Messages `x` are found under `x` alone. -/
structure Proper (x : String) (b : Books) : Prop where
  indexed : b.space.Indexed
  proper : b.space.Proper x

theorem Proper.step (hb : b.Proper x) (h : Step c ids direct b b')
    (hd : ∀ op, direct op → op.Proper x) : b'.Proper x := by
  obtain ⟨-, hs | ⟨op, hs, ho⟩⟩ := h.exists_op
  · exact ⟨hs ▸ hb.indexed, hs ▸ hb.proper⟩
  · have hp : op.Proper x := ho.elim (hd op) fun ho => op.proper_of_isRaw ho.1 x
    exact ⟨hs ▸ hb.indexed.apply op, hs ▸ hb.proper.apply hb.indexed hp⟩

theorem Proper.steps (hb : b.Proper x) (h : Relation.ReflTransGen (Step c ids direct) b b')
    (hd : ∀ op, direct op → op.Proper x) : b'.Proper x := by
  induction h with
  | refl => exact hb
  | tail _ hs ih => exact ih.step hs hd

/-- None of the messages to come is called `x`. -/
def Past (ids : MessageId.Source) (x : String) (b : Books) : Prop :=
  ∀ n, b.serial ≤ n → ids.id n ≠ x

theorem Past.step (hb : b.Past ids x) (h : Step c ids direct b b') : b'.Past ids x :=
  fun n hn => hb n (Nat.le_trans h.exists_op.1 hn)

theorem Step.not_invoked (h : Step c ids direct b b') (hb : b.Proper x)
    (hn : ∀ row m, b.space.row? x = some row → Row.decode row ≠ .ok m) :
    ∃ l, b'.journal = l ++ b.journal ∧ ∀ e ∈ l, e.2.invokes x = false := by
  have one {e : Instant × Entry} (he : e.2.invokes x = false) :
      ∃ l, e :: b.journal = l ++ b.journal ∧ ∀ e ∈ l, e.2.invokes x = false :=
    ⟨[e], rfl, fun _ h => List.mem_singleton.mp h ▸ he⟩
  cases h with
  | noted t he => exact one (Entry.invokes_of_isPassage he x)
  | handed t i ht hm =>
    refine one (e := (t, .invoked i _)) ?_
    simpa [Entry.invokes] using hb.proper.id_ne_of_taken hn ht hm
  | committed t i y => exact one (e := (t, .committed i y)) rfl
  | produced | timed | direct | took => exact ⟨[], rfl, by simp⟩

theorem Step.unstored (h : Step c ids direct b b') (hb : b.Proper x) (hp : b.Past ids x)
    (hd : ∀ op, direct op → op.LeavesOut x) (hr : b.space.row? x = none) :
    b'.space.row? x = none ∧
      ∃ l, b'.journal = l ++ b.journal ∧ ∀ e ∈ l, e.2.invokes x = false := by
  constructor
  · obtain ⟨-, hs | ⟨op, hs, ho⟩⟩ := h.exists_op
    · rw [hs]; exact hr
    · rw [hs]
      refine Space.row?_apply_eq_none hb.indexed hr (ho.elim (hd op) fun ⟨ho, hy⟩ => ?_)
      constructor
      · exact fun hx => hp _ (Nat.le_refl _) (hy x hx).symm
      · rintro row rfl; cases ho
  · refine h.not_invoked hb fun row m h => ?_
    rw [hr] at h
    cases h

section Runs

variable (hb : b.Proper x) (hp : b.Past ids x)
  (hd : ∀ op, direct op → op.Proper x ∧ op.LeavesOut x)
  (h : Relation.ReflTransGen (Step c ids direct) b b')

include hb hp hd h

theorem proper_past_steps : b'.Proper x ∧ b'.Past ids x := by
  induction h with
  | refl => exact ⟨hb, hp⟩
  | tail _ hs ih => exact ⟨ih.1.step hs fun op ho => (hd op ho).1, ih.2.step hs⟩

theorem unstored_steps (hr : b.space.row? x = none) : b'.space.row? x = none ∧
    ∃ l, b'.journal = l ++ b.journal ∧ ∀ e ∈ l, e.2.invokes x = false := by
  induction h with
  | refl => exact ⟨hr, [], rfl, by simp⟩
  | tail hbs hs ih =>
    obtain ⟨hb', hp'⟩ := proper_past_steps hb hp hd hbs
    obtain ⟨hr', l, hl, hne⟩ := ih
    obtain ⟨hr'', l', hl', hne'⟩ := hs.unstored hb' hp' (fun op ho => (hd op ho).2) hr'
    refine ⟨hr'', l' ++ l, by rw [hl', hl, List.append_assoc], fun e he => ?_⟩
    exact (List.mem_append.mp he).elim (hne' e) (hne e)

/-- What follows a commit in the journal, if the commit is a later one than those in `b`. -/
theorem committed_steps {l l' : List (Instant × Entry)} {t : Instant} {i : Nat}
    (hj : b'.journal = l ++ (t, .committed i x) :: l') (hl : b.journal <:+ l') :
    b'.space.row? x = none ∧ ∀ e ∈ l, e.2.invokes x = false := by
  induction h generalizing l with
  | refl =>
    have := hl.length_le
    rw [hj] at this
    simp at this
    omega
  | @tail b₁ b₂ hbs hs ih =>
    obtain ⟨hb', hp'⟩ := proper_past_steps hb hp hd hbs
    -- a step after the commit
    have later (l₂ : List (Instant × Entry)) {l₁ : List (Instant × Entry)}
        (hj₂ : b₂.journal = l₂ ++ b₁.journal)
        (hj₁ : b₁.journal = l₁ ++ (t, .committed i x) :: l') :
        b₂.space.row? x = none ∧ ∀ e ∈ l₂ ++ l₁, e.2.invokes x = false := by
      obtain ⟨hr, hne⟩ := ih hj₁
      obtain ⟨hr', l₃, hj₃, hne'⟩ := hs.unstored hb' hp' (fun op ho => (hd op ho).2) hr
      obtain rfl := List.append_cancel_right (hj₂.symm.trans hj₃)
      exact ⟨hr', fun e he => (List.mem_append.mp he).elim (hne' e) (hne e)⟩
    cases hs with
    | produced | timed | direct | took => exact later [] rfl hj
    | @noted t' e he =>
      cases l with
      | nil => cases hj; cases he
      | cons e' l =>
        obtain ⟨rfl, hj₁⟩ := List.cons.inj hj
        exact later [_] rfl hj₁
    | handed t' i' =>
      cases l with
      | nil => cases hj
      | cons e' l =>
        obtain ⟨rfl, hj₁⟩ := List.cons.inj hj
        exact later [_] rfl hj₁
    | committed t' i' y =>
      cases l with
      | nil =>
        cases hj
        refine ⟨?_, by simp⟩
        exact congrArg Place.row Space.place_commit_self
      | cons e' l =>
        obtain ⟨rfl, hj₁⟩ := List.cons.inj hj
        exact later [_] rfl hj₁

end Runs

end Books

namespace Queue

variable {c : Config} {faults : Faults} {begun : Clocks} {ids : MessageId.Source} {observed : Bool}
  {q : Queue} {x : String} {before after : List Event}

theorem proper_live (hq : Queue.new c faults begun ids observed = .ok q)
    (hb : ∀ op ∈ q.directs before, op.Proper x) : (q.live before).books.Proper x := by
  have h₀ : q.books.Proper x := by
    obtain rfl := eq_of_new hq
    have hs : (Store.empty.space (.ofName c.name)).Indexed ∧
        (Store.empty.space (.ofName c.name)).Proper x := by
      rw [Store.space_empty]
      exact ⟨Space.indexed_empty, Space.proper_empty⟩
    exact ⟨hs.1, hs.2⟩
  exact h₀.steps (live_follows hb).steps fun _ ho => ho

theorem journal_suffix_live (es : List Event) : q.journal <:+ (q.live es).journal :=
  Books.suffix_of_steps (follows_true es).steps

theorem ids_live (hq : Queue.new c faults begun ids observed = .ok q) (es : List Event) :
    (q.live es).ids = ids :=
  (follows_true es).ids.trans (balanced_new hq).source

/-- A message that was removed, by a commit, by a purge or in a take that found its deliveries used
up, does not come back unless it is produced again or its row is written. Hence no handler begins
with a message after a commit of it, whatever callers, workers and the daemon do and whatever
others do to the store. -/
theorem no_resurrection :
    (∀ (k : Keys) (x : String) (before after : List (Keys × StoreOp)) (op : StoreOp),
      Store.Fresh (Store.opsOn k before) → Store.RawOverStored k (Store.opsOn k before) →
      ((Store.empty.runAll before).space k).Removes x op →
      (∀ o ∈ Store.opsOn k after, o.LeavesOut x) →
      let removed := ((Store.empty.runAll before).apply k op).2
      (removed.runAll after).Lacks k x ∧ Space.popCount x (removed.history k after) ≤ 1) ∧
    ∀ (c : Config) (faults : Faults) (begun : Clocks) (ids : MessageId.Source) (observed : Bool)
      (q : Queue) (x : String) (before after : List Event),
      Queue.new c faults begun ids observed = .ok q →
      (∀ op ∈ q.directs before, op.Proper x) →
      (∀ n, (q.live before).serial ≤ n → ids.id n ≠ x) →
      (∀ op ∈ (q.live before).directs after, op.Proper x ∧ op.LeavesOut x) →
      let p := q.live before
      let r := p.live after
      (p.space.row? x = none → r.space.row? x = none ∧
        ∃ l, r.journal = l ++ p.journal ∧ ∀ e ∈ l, e.2.invokes x = false) ∧
      ∀ l t i l', r.journal = l ++ (t, .committed i x) :: l' → p.journal <:+ l' →
        r.space.row? x = none ∧ ∀ e ∈ l, e.2.invokes x = false := by
  constructor
  · intro k x before after op hf hw hr ha removed
    exact Store.lacks_after_removal hf hw hr ha
  · intro c faults begun ids observed q x before after hq hb hp ha p r
    have hbooks : p.books.Proper x := proper_live hq hb
    have hpast : p.books.Past p.ids x := ids_live hq before ▸ hp
    have hsteps := (live_follows ha).steps
    constructor
    · exact Books.unstored_steps hbooks hpast (fun _ ho => ho) hsteps
    · intro l t i l' hj hl
      exact Books.committed_steps hbooks hpast (fun _ ho => ho) hsteps hj hl

theorem split_of_commits {j : List (Instant × Entry)} {n : Nat}
    (h : (j[n]?.any fun e => e.2.commits x) = true) :
    ∃ t i, j = j.take n ++ (t, .committed i x) :: j.drop (n + 1) := by
  obtain ⟨⟨t, e⟩, he, hc⟩ := (Option.any_eq_true _ _).mp h
  obtain ⟨i, rfl⟩ : ∃ i, e = .committed i x := by
    cases e with
    | committed i y => exact ⟨i, congrArg (Entry.committed i) (beq_iff_eq.mp hc)⟩
    | _ => cases hc
  obtain ⟨hlt, he⟩ := List.getElem?_eq_some_iff.mp he
  exact ⟨t, i, by rw [← he, ← List.drop_eq_getElem_cons hlt, List.take_append_drop]⟩

/-- A message that lingers in the ready list after its commit, and one that a worker commits while
another queue has a message of the same id. -/
def lingeringRun : List (Keys × StoreOp) :=
  [(.ofName "q", .produce ⟨"a", [1], .epoch, none, none, 0⟩ .epoch),
    (.ofName "q", .take (.ofMillis 5) 2 .epoch), (.ofName "q", .promote .latest 1)]

def afterLingering : List (Keys × StoreOp) :=
  [(.ofName "q", .reschedule "a" .latest), (.ofName "q", .take (.ofMillis 5) 2 .epoch),
    (.ofName "p", .produce ⟨"a", [1], .epoch, none, none, 0⟩ .epoch)]

def soloBefore : List Event := (soloMoves.take 3).map .move

def soloAfter : List Event :=
  [.outside (.ofName "default") (.produce ⟨"b", [], .epoch, none, none, 0⟩ .epoch),
    .outside (.ofName "p") (.produce ⟨MessageId.Source.id ⟨0, 0⟩ 0, [], .epoch, none, none, 0⟩
      .epoch)] ++ (soloMoves.drop 3).map .move

theorem no_resurrection_lingering :
    let removed := ((Store.empty.runAll lingeringRun).apply (.ofName "q") (.commit "a")).2
    let x := MessageId.Source.id ⟨0, 0⟩ 0
    let r := (soloQueue.live soloBefore).live soloAfter
    (removed.space (.ofName "q")).ready = ["a"] ∧
    (removed.runAll afterLingering).Lacks (.ofName "q") "a" ∧
    Space.popCount "a" (removed.history (.ofName "q") afterLingering) = 1 ∧
    ∃ l t i l', r.journal = l ++ (t, .committed i x) :: l' ∧ r.space.row? x = none ∧
      (∀ e ∈ l, e.2.invokes x = false) ∧ ∃ e ∈ l, e.2.invokes "b" = true := by
  intro removed x r
  have hf : Store.Fresh (Store.opsOn (.ofName "q") lingeringRun) := by
    unfold Store.Fresh; decide +kernel
  have hw : Store.RawOverStored (.ofName "q") (Store.opsOn (.ofName "q") lingeringRun) :=
    Store.rawOverStored_of_unraw (by decide +kernel)
  have ha : ∀ o ∈ Store.opsOn (.ofName "q") afterLingering, o.LeavesOut "a" := by
    have ho : Store.opsOn (.ofName "q") afterLingering =
        [.reschedule "a" .latest, .take (.ofMillis 5) 2 .epoch] := by decide +kernel
    rw [ho]
    intro o hm
    simp only [List.mem_cons, List.not_mem_nil, or_false] at hm
    rcases hm with rfl | rfl <;> exact ⟨by simp [StoreOp.produced], by rintro row ⟨⟩⟩
  have hl := (no_resurrection.1 (.ofName "q") "a" lingeringRun afterLingering (.commit "a")
    hf hw .committed ha).1
  have hq : Queue.new {} .none ⟨.epoch, 0⟩ ⟨0, 0⟩ false = .ok soloQueue := rfl
  have hb : ∀ op ∈ soloQueue.directs soloBefore, op.Proper x := by
    have h : soloQueue.directs soloBefore = [] := by decide +kernel
    rw [h]
    exact fun _ hm => absurd hm List.not_mem_nil
  have hp : ∀ n, (soloQueue.live soloBefore).serial ≤ n → MessageId.Source.id ⟨0, 0⟩ n ≠ x := by
    have h : (soloQueue.live soloBefore).serial = 1 := by decide +kernel
    rw [h]
    intro n hn he
    exact absurd (MessageId.Source.id_injective _ he) (Nat.ne_of_gt hn)
  have hd : ∀ op ∈ (soloQueue.live soloBefore).directs soloAfter,
      op.Proper x ∧ op.LeavesOut x := by
    have h : (soloQueue.live soloBefore).directs soloAfter =
        [.produce ⟨"b", [], .epoch, none, none, 0⟩ .epoch] := by decide +kernel
    have hx : x ∉ (StoreOp.produce ⟨"b", [], .epoch, none, none, 0⟩ .epoch).produced := by
      decide +kernel
    rw [h]
    intro op hm
    obtain rfl := List.mem_singleton.mp hm
    exact ⟨StoreOp.proper_of_isRaw rfl x, hx, by rintro row ⟨⟩⟩
  -- the commit comes third from the last, after it the worker takes another message
  obtain ⟨t, i, hj⟩ := split_of_commits (j := r.journal) (n := 2) (x := x) (by decide +kernel)
  have hs : (soloQueue.live soloBefore).journal <:+ r.journal.drop 3 :=
    List.suffix_of_suffix_length_le (journal_suffix_live _) (List.drop_suffix _ _)
      (by decide +kernel)
  obtain ⟨hr, hne⟩ := (no_resurrection.2 {} .none ⟨.epoch, 0⟩ ⟨0, 0⟩ false soloQueue x soloBefore
    soloAfter hq hb hp hd).2 _ t i _ hj hs
  refine ⟨by decide +kernel, hl, by decide +kernel, _, t, i, _, hj, hr, hne, ?_⟩
  exact List.any_eq_true.mp (by decide +kernel)

end Queue

end DelayedQueue
