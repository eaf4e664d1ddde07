import DelayedQueue.Proofs.Store.Deliveries

/-! # No message is early

An operation arms an id for a due time, and a promotion moves it to the ready list. A stored id
that a take pops was produced for at once and never armed, or a promotion moved it, at its due
time or later, after it was armed for the last time. A reschedule therefore overrides all that
was said before it about when its id falls due.
-/

namespace DelayedQueue

/-- A retry cut at the highest score never comes due, so what a clock reaches was not cut. -/
theorem Score.le_of_addMillis_le {t now : Time} {retry : Duration}
    (h : Score.addMillis t.millis retry ≤ now.millis) :
    min (t.millis + retry.millis) Score.highest ≤ now.millis := by
  have hm : min (t.millis + min (retry.millis : Int) Score.highest) Score.highest ≤ now.millis := h
  have hl := now.le_latest
  have he := t.earliest_le
  simp only [Score.highest, Time.millis, latestNanos, earliestNanos] at hm hl he ⊢
  omega

namespace Space

variable {s : Space} {x : String} {op : StoreOp} {d t : Score}
  {h before after : List (Space × StoreOp)}

section Arming

/-- An operation makes `x` fall due at `d`, in whole milliseconds. -/
inductive Arms (s : Space) (x : String) : StoreOp → Score → Prop

  | produced {m : Message} {now t : Time} : m.id = x → m.deliverAt = some t → now < t →
      Arms s x (.produce m now) t.millis

  | rescheduled {t : Time} : (s.reschedule x t).1 = true → Arms s x (.reschedule x t) t.millis

  | taken {retry : Duration} {cap : UInt64} {now : Time} {row : Bytes} :
      s.ready.head? = some x → (s.takeOne retry cap now).1 = .taken row →
      Arms s x (.take retry cap now) (min (now.millis + retry.millis) Score.highest)

/-- A promotion moves `x` from the pending set to the ready list. -/
structure Promotes (s : Space) (x : String) (now : Time) (limit : Nat) : Prop where
  pending : s.score? x ≠ none
  absent : x ∉ s.ready
  moved : x ∈ (s.promoteDue now limit).2.ready

/-- Nothing in a history arms `x`. -/
def Unarmed (x : String) (h : List (Space × StoreOp)) : Prop := ∀ e ∈ h, ∀ d, ¬ e.1.Arms x e.2 d

/-- `x` may be handed out after a history. -/
inductive Licensed (x : String) (h : List (Space × StoreOp)) : Prop

  /-- It was produced for at once and has not been armed since. -/
  | immediate {before after : List (Space × StoreOp)} {s : Space} {m : Message} {now : Time} :
      h = before ++ (s, .produce m now) :: after → m.id = x →
      (∀ t, m.deliverAt = some t → t ≤ now) → Unarmed x after → Licensed x h

  /-- It was armed, and a promotion has moved it at its due time or later. -/
  | promoted {before mid after : List (Space × StoreOp)} {s s' : Space} {op : StoreOp} {d : Score}
      {now : Time} {limit : Nat} :
      h = before ++ (s, op) :: (mid ++ (s', .promote now limit) :: after) → s.Arms x op d →
      Unarmed x (mid ++ (s', .promote now limit) :: after) → s'.Promotes x now limit →
      d ≤ now.millis → Licensed x h

/-- `x` is armed for `t`, or for a time that is reached no later than `t`. -/
def Armed (x : String) (h : List (Space × StoreOp)) (t : Score) : Prop :=
  ∃ before s op d after, h = before ++ (s, op) :: after ∧ s.Arms x op d ∧ Unarmed x after ∧
    ∀ now : Time, t ≤ now.millis → d ≤ now.millis

theorem Arms.touches (h : s.Arms x op d) : s.Touches x op := by
  cases h with
  | produced hm => exact hm
  | rescheduled hr =>
    refine ⟨rfl, fun hn => ?_⟩
    rw [reschedule_of_none hn] at hr
    cases hr
  | taken hh => exact hh

theorem unarmed_nil : Unarmed x [] := fun _ he => absurd he List.not_mem_nil

theorem Unarmed.concat (hu : Unarmed x h) (ho : ∀ d, ¬ s.Arms x op d) :
    Unarmed x (h ++ [(s, op)]) := by
  intro e he
  rcases List.mem_append.mp he with he | he
  · exact hu e he
  · obtain rfl := List.mem_singleton.mp he
    exact ho

theorem Armed.concat (ha : Armed x h t) (ho : ∀ d, ¬ s.Arms x op d) :
    Armed x (h ++ [(s, op)]) t := by
  obtain ⟨before, s', op', d, after, rfl, ha, hu, hd⟩ := ha
  exact ⟨before, s', op', d, after ++ [(s, op)], by simp, ha, hu.concat ho, hd⟩

theorem Arms.armed (ha : s.Arms x op d) (hd : ∀ now : Time, t ≤ now.millis → d ≤ now.millis) :
    Armed x (h ++ [(s, op)]) t :=
  ⟨h, s, op, d, [], rfl, ha, unarmed_nil, hd⟩

theorem Licensed.concat (hl : Licensed x h) (ho : ∀ d, ¬ s.Arms x op d) :
    Licensed x (h ++ [(s, op)]) := by
  cases hl with
  | immediate he hm hi hu => exact .immediate (by rw [he]; simp; rfl) hm hi (hu.concat ho)
  | promoted he ha hu hp hd =>
    have hu' := hu.concat ho
    rw [List.append_assoc, List.cons_append] at hu'
    exact .promoted (by rw [he]; simp; rfl) ha hu' hp hd

end Arming

section Step

variable {now : Time} {limit : Nat}

theorem due_le_of_mem_dueEntries {e : Score × String} (h : e ∈ s.dueEntries now limit) :
    e.1 ≤ now.millis := by
  have he := List.mem_of_mem_take h
  simpa using List.mem_takeWhile_imp he

theorem promotes_of_place (hi : s.Indexed) (hc : (s.place x).copies = 0)
    (hd : (s.place x).due = some t)
    (hp : (s.apply (.promote now limit)).2.place x =
      ⟨(s.place x).copies + 1, none, (s.place x).row⟩) :
    s.Promotes x now limit ∧ t ≤ now.millis := by
  have hp' : (s.promoteDue now limit).2.place x = _ := hp
  have hm : x ∈ (s.dueEntries now limit).map Prod.snd := by
    by_contra hm
    rw [place_promoteDue hi, if_neg hm] at hp'
    have hcopies := congrArg Place.copies hp'
    simp [hc] at hcopies
  obtain ⟨⟨u, _⟩, he, rfl⟩ := List.mem_map.mp hm
  have hu := (hi u _).mp (mem_schedule_of_mem_dueEntries he)
  obtain rfl : u = t := Option.some.inj (hu.symm.trans hd)
  refine ⟨⟨?_, fun hx => copies_ne_zero.mpr hx hc, copies_ne_zero.mp ?_⟩,
    due_le_of_mem_dueEntries he⟩
  · rw [hu]; exact Option.some_ne_none u
  · rw [hp']; exact Nat.succ_ne_zero _

/-- A pending id is armed for its due time, and a ready one that is stored may be handed out. -/
structure Timely (x : String) (h : List (Space × StoreOp)) (p : Place) : Prop where
  armed : ∀ t, p.due = some t → Armed x h t
  licensed : p.copies ≠ 0 → p.row ≠ none → Licensed x h

theorem Timely.of_gone {p : Place} (hd : p.due = none) (hr : p.row = none) : Timely x h p where
  armed t ht := by rw [hd] at ht; cases ht
  licensed _ hn := absurd hr hn

theorem Timely.of_pending {p : Place} (hc : p.copies = 0) (hd : p.due = some t)
    (ha : Armed x h t) : Timely x h p where
  armed u hu := by cases hd.symm.trans hu; exact ha
  licensed hn := absurd hc hn

theorem Timely.of_ready {p : Place} (hd : p.due = none) (hl : Licensed x h) : Timely x h p where
  armed t ht := by rw [hd] at ht; cases ht
  licensed _ _ := hl

theorem Timely.concat {p : Place} (ht : Timely x h p) (ho : ∀ d, ¬ s.Arms x op d) :
    Timely x (h ++ [(s, op)]) p where
  armed t hd := (ht.armed t hd).concat ho
  licensed hc hr := (ht.licensed hc hr).concat ho

theorem timely_pop {retry : Duration} {cap : UInt64} {p : Place} (hs : (s.place x).Sound)
    (hh : s.ready.head? = some x)
    (hp : Pop x retry cap now (s.place x) (s.takeOne retry cap now).1 p) :
    Timely x (h ++ [(s, .take retry cap now)]) p := by
  have harmed : ∀ row, (s.takeOne retry cap now).1 = .taken row →
      Armed x (h ++ [(s, .take retry cap now)]) (Score.addMillis now.millis retry) :=
    fun row ht => (Arms.taken hh ht).armed fun _ => Score.le_of_addMillis_le
  generalize ht : (s.takeOne retry cap now).1 = k at hp
  cases hp with
  | dangling | exhausted => exact .of_gone rfl rfl
  | unreadable | delivered => exact .of_pending hs.copies_sub_one rfl (harmed _ ht)

theorem Timely.apply (ht : Timely x h (s.place x)) (hi : s.Indexed) (hs : (s.place x).Sound)
    (hn : x ∈ op.produced → s.place x = .vacant) (hw : op.isRaw = false) :
    Timely x (h ++ [(s, op)]) ((s.apply op).2.place x) := by
  have hp := effect_apply hi x op
  generalize hq : (s.apply op).2.place x = p at hp ⊢
  cases hp with
  | spared hnt => exact ht.concat fun d ha => hnt ha.touches
  | readied hm him =>
    have hv := hn (by simp [StoreOp.produced, hm])
    refine .of_ready (by rw [hv]; rfl) (.immediate rfl hm (fun t hd => ?_) unarmed_nil)
    simpa [Message.isImmediate, hd] using him
  | delayed hm hd him =>
    have hv := hn (by simp [StoreOp.produced, hm])
    refine .of_pending (by rw [hv]; rfl) rfl ((Arms.produced hm hd ?_).armed fun _ => id)
    rw [Message.isImmediate, hd] at him
    exact Time.not_le.mp (of_decide_eq_false him)
  | popped hh hp => exact timely_pop hs hh hp
  | committed | purged => exact .of_gone rfl rfl
  | rescheduled hr =>
    refine .of_pending rfl rfl ((Arms.rescheduled ?_).armed fun _ => id)
    rw [reschedule_of_some hr]
  | @promoted now limit t hd =>
    obtain ⟨before, s', op', d, after, rfl, ha, hu, hle⟩ := ht.armed t hd
    have hc : (s.place x).copies = 0 := by
      by_contra hc
      rw [hs.apart hc] at hd; cases hd
    obtain ⟨hp, hdue⟩ := promotes_of_place hi hc hd hq
    exact .of_ready rfl
      (.promoted (by simp; rfl) ha (hu.concat fun d ha => by cases ha) hp (hle now hdue))
  | overwritten => cases hw

end Step

section Override

/-- Until it is moved, an id that was set for `t` waits for that time, or has no row any more. -/
def Withheld (p : Place) (t : Score) : Prop := p.row = none ∨ p.copies = 0 ∧ p.due = some t

/-- A promotion at `t` or later that moves `x`. -/
def MovesAfter (x : String) (t : Score) (e : Space × StoreOp) : Prop :=
  ∃ now limit, e.2 = .promote now limit ∧ e.1.Promotes x now limit ∧ t ≤ now.millis

theorem withheld_apply (hi : s.Indexed) (hw : Withheld (s.place x) t) (hn : x ∉ op.produced)
    (hr : op.isRaw = false) (ht : s.rescheduled? x op = none) :
    Withheld ((s.apply op).2.place x) t ∨ MovesAfter x t (s, op) := by
  have hp := effect_apply hi x op
  generalize hq : (s.apply op).2.place x = p at hp ⊢
  cases hp with
  | spared => exact .inl hw
  | readied h | delayed h => exact absurd (by simp [StoreOp.produced, h]) hn
  | popped hh hp =>
    refine .inl ?_
    have hc : (s.place x).copies ≠ 0 := copies_ne_zero.mpr (List.mem_of_mem_head? hh)
    have hrow := hw.resolve_right fun h => hc h.1
    generalize (s.takeOne _ _ _).1 = k at hp
    cases hp with
    | dangling | exhausted => exact .inl rfl
    | unreadable hs | delivered hs => rw [hrow] at hs; cases hs
  | committed | purged => exact .inl (.inl rfl)
  | rescheduled hs => simp [rescheduled?, reschedule_of_some hs] at ht
  | @promoted now limit u hd =>
    rcases hw with hw | ⟨hc, hd'⟩
    · exact .inl (.inl hw)
    · obtain rfl : u = t := Option.some.inj (hd.symm.trans hd')
      exact .inr ⟨now, limit, rfl, promotes_of_place hi hc hd hq⟩
  | overwritten => cases hr

theorem withheld_run {ops : List StoreOp} (hi : s.Indexed) (hw : Withheld (s.place x) t)
    (hops : Sparing x ops) (ht : ∀ e ∈ s.history ops, e.1.rescheduled? x e.2 = none) :
    Withheld ((s.run ops).place x) t ∨ ∃ e ∈ s.history ops, MovesAfter x t e := by
  induction ops using List.reverseRecOn with
  | nil => exact .inl hw
  | append_singleton ops op ih =>
    obtain ⟨hops', hn, hr⟩ := hops.of_concat
    simp only [history_concat, List.mem_append, List.mem_singleton] at ht ⊢
    rw [run_concat]
    rcases ih hops' fun e he => ht e (.inl he) with hw | ⟨e, he, hm⟩
    · refine (withheld_apply (hi.run ops) hw hn hr (ht _ (.inr rfl))).imp_right fun hm => ?_
      exact ⟨_, .inr rfl, hm⟩
    · exact .inr ⟨e, .inl he, hm⟩

theorem history_append (ops ops' : List StoreOp) :
    s.history (ops ++ ops') = s.history ops ++ (s.run ops).history ops' := by
  induction ops generalizing s with
  | nil => rfl
  | cons op ops ih => exact congrArg ((s, op) :: ·) (ih (s := (s.apply op).2))

theorem of_history_eq {ops : List StoreOp} {s' : Space}
    (h : s.history ops = before ++ (s', op) :: after) : ∃ ops₁ ops₂, ops = ops₁ ++ op :: ops₂ ∧
      s' = s.run ops₁ ∧ after = (s'.apply op).2.history ops₂ := by
  induction before generalizing s ops with
  | nil =>
    cases ops with
    | nil => cases h
    | cons op' ops => cases h; exact ⟨[], ops, rfl, rfl, rfl⟩
  | cons e before ih =>
    cases ops with
    | nil => cases h
    | cons op' ops =>
      obtain ⟨ops₁, ops₂, rfl, hs, ha⟩ := ih (List.cons.inj h).2
      exact ⟨op' :: ops₁, ops₂, rfl, hs, ha⟩

end Override

section Runs

variable {ops : List StoreOp}

theorem timely_run (hf : (ops.flatMap StoreOp.produced).Nodup) (hr : ∀ op ∈ ops, op.isRaw = false)
    (x : String) : ((empty.run ops).place x).Sound ∧
      Timely x (empty.history ops) ((empty.run ops).place x) := by
  induction ops using List.reverseRecOn with
  | nil =>
    rw [run_nil, place_empty]
    exact ⟨Place.sound_vacant, .of_gone rfl rfl⟩
  | append_singleton ops op ih =>
    obtain ⟨hf', -, hd⟩ := List.nodup_append.mp (by simpa using hf)
    have hr' : ∀ o ∈ ops, o.isRaw = false := fun o ho => hr o (List.mem_append_left _ ho)
    have hw : op.isRaw = false := hr op (by simp)
    have hv : x ∈ op.produced → (empty.run ops).place x = .vacant := by
      intro hx
      refine vacant_run fun o ho => ⟨fun hx' => ?_, hr' o ho⟩
      exact hd x (List.mem_flatMap_of_mem ho hx') x hx rfl
    obtain ⟨hs, ht⟩ := ih hf' hr'
    have hi := indexed_empty.run ops
    rw [run_concat, history_concat]
    refine ⟨sound_apply hi hs hv ?_, ht.apply hi hs hv hw⟩
    rintro row rfl
    cases hw

/-- After a reschedule that none follows, a take pops the id only once it has been moved. -/
theorem moved_of_rescheduled {t : Time} (hf : (ops.flatMap StoreOp.produced).Nodup)
    (hr : ∀ op ∈ ops, op.isRaw = false) (hh : x ∈ (empty.run ops).ready)
    (hrow : (empty.run ops).row? x ≠ none)
    (he : empty.history ops = before ++ (s, .reschedule x t) :: after)
    (hset : (s.reschedule x t).1 = true) (hlast : ∀ e ∈ after, e.1.rescheduled? x e.2 = none) :
    ∃ e ∈ after, MovesAfter x t.millis e := by
  obtain ⟨ops₁, ops₂, rfl, rfl, rfl⟩ := of_history_eq he
  set s := empty.run ops₁ with hs
  have hi : s.Indexed := indexed_empty.run ops₁
  obtain ⟨row, hs'⟩ : ∃ row, s.row? x = some row := by
    refine Option.ne_none_iff_exists'.mp fun hn => ?_
    rw [reschedule_of_none hn] at hset
    cases hset
  -- a stored id has been produced before, so it is not produced again
  have hsparing : Sparing x ops₂ := by
    refine fun op ho => ⟨fun hx => ?_, hr op (by simp [ho])⟩
    have hx₁ : x ∉ ops₁.flatMap StoreOp.produced := fun hx₁ =>
      (List.nodup_append.mp (by simpa using hf)).2.2 x hx₁ x
        (by simpa [StoreOp.produced] using ⟨op, ho, hx⟩) rfl
    have hv : (empty.run ops₁).place x = .vacant := vacant_run fun o ho =>
      ⟨fun hx => hx₁ (List.mem_flatMap_of_mem ho hx), hr o (by simp [ho])⟩
    cases (congrArg Place.row hv).symm.trans hs'
  have hw : Withheld ((s.apply (.reschedule x t)).2.place x) t.millis :=
    .inr (by
      rw [show (s.apply (.reschedule x t)).2.place x = _ from place_reschedule_self hs']
      simp)
  have hrun : empty.run (ops₁ ++ .reschedule x t :: ops₂) =
      (s.apply (.reschedule x t)).2.run ops₂ := run_append _ _
  rw [hrun] at hh hrow
  refine (withheld_run (hi.apply _) hw hsparing hlast).resolve_left ?_
  rintro (hn | ⟨hc, -⟩)
  · exact hrow hn
  · exact copies_ne_zero.mpr hh hc

end Runs

end Space

namespace Store

variable {k : Keys} {ops : List (Keys × StoreOp)} {x : String}

open Space (Licensed MovesAfter)

/-- While every message has an id of its own and no row is written past the encoding, a stored
id that a take pops was produced for at once and not armed since, or moved at its due time or
later since it was armed last. After its last reschedule it was moved at that time or later. -/
theorem never_early (hf : Fresh (opsOn k ops)) (hr : ∀ op ∈ opsOn k ops, op.isRaw = false)
    (hh : ((empty.runAll ops).space k).ready.head? = some x)
    (hrow : ((empty.runAll ops).space k).row? x ≠ none) :
    Licensed x (empty.history k ops) ∧
    ∀ before s t after, empty.history k ops = before ++ (s, .reschedule x t) :: after →
      (s.reschedule x t).1 = true → (∀ e ∈ after, e.1.rescheduled? x e.2 = none) →
        ∃ e ∈ after, MovesAfter x t.millis e := by
  rw [space_runAll, space_empty] at hh hrow
  rw [history_eq, space_empty]
  have hm := List.mem_of_mem_head? hh
  refine ⟨(Space.timely_run hf hr x).2.licensed (Space.copies_ne_zero.mpr hm) hrow, ?_⟩
  intro before s t after he hset hlast
  exact Space.moved_of_rescheduled hf hr hm hrow he hset hlast

/-- The time this many milliseconds after 1970. -/
def clockAt (ms : Nat) : Time := (Time.ofMillis? ms).getD .epoch

/-- A message that is delayed, taken, armed for a retry and moved again before it is set anew. -/
def overriddenStart : List StoreOp :=
  [.produce ⟨"a", [1], .epoch, some (clockAt 5), none, 0⟩ .epoch, .promote (clockAt 5) 1,
    .take (.ofMillis 5) 2 (clockAt 5), .promote (clockAt 10) 1]

def overriddenEnd : List StoreOp := [.promote (clockAt 19) 1, .promote (clockAt 20) 1]

def overriddenRun : List (Keys × StoreOp) :=
  (overriddenStart ++ .reschedule "a" (clockAt 20) :: overriddenEnd).map (Keys.ofName "q", ·)

theorem never_early_overridden : Fresh (opsOn (.ofName "q") overriddenRun) ∧
    (∀ op ∈ opsOn (.ofName "q") overriddenRun, op.isRaw = false) ∧
    ((empty.runAll overriddenRun).space (.ofName "q")).ready.head? = some "a" ∧
    ((empty.runAll overriddenRun).space (.ofName "q")).row? "a" ≠ none ∧
    Licensed "a" (empty.history (.ofName "q") overriddenRun) ∧
    ∃ e ∈ ((Space.empty.run overriddenStart).reschedule "a" (clockAt 20)).2.history overriddenEnd,
      MovesAfter "a" 20 e := by
  have hf : Fresh (opsOn (.ofName "q") overriddenRun) := by unfold Fresh; decide +kernel
  have hr : ∀ op ∈ opsOn (.ofName "q") overriddenRun, op.isRaw = false := by decide +kernel
  have hh : ((empty.runAll overriddenRun).space (.ofName "q")).ready.head? = some "a" := by
    decide +kernel
  have hrow : ((empty.runAll overriddenRun).space (.ofName "q")).row? "a" ≠ none := by
    decide +kernel
  have he : empty.history (.ofName "q") overriddenRun =
      Space.empty.history overriddenStart ++
        (Space.empty.run overriddenStart, .reschedule "a" (clockAt 20)) ::
          ((Space.empty.run overriddenStart).reschedule "a" (clockAt 20)).2.history
            overriddenEnd := by
    have hops : opsOn (.ofName "q") overriddenRun =
        overriddenStart ++ .reschedule "a" (clockAt 20) :: overriddenEnd := by decide +kernel
    rw [history_eq, hops, space_empty, Space.history_append, Space.history, Space.apply]
  obtain ⟨hl, hm⟩ := never_early hf hr hh hrow
  refine ⟨hf, hr, hh, hrow, hl, hm _ _ (clockAt 20) _ he (by decide +kernel) ?_⟩
  rintro e hmem
  simp only [overriddenEnd, Space.history, List.mem_cons, List.not_mem_nil, or_false] at hmem
  rcases hmem with rfl | rfl <;> rfl

end Store

end DelayedQueue
