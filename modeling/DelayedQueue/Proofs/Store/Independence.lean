import DelayedQueue.Proofs.Store.Line

/-! # The order of independent operations

A space is known by its ready list and by the place of each id. What a commit, a reschedule or a
produced message makes of its id depends on the place of that id alone, and it leaves the places of
all others, so two of them on different ids can be done in either order. Only the ready list can
tell the order, and only of two messages that are both ready at once. A commit and a take can change
places as well, also where the take pops the id that is committed.
-/

namespace DelayedQueue

open Std (ExtTreeMap ExtTreeSet)

namespace StoreOp

/-- The id that a produced message, a commit or a reschedule is about. -/
def subject? : StoreOp → Option String
  | .produce m _ => some m.id
  | .commit id => some id
  | .reschedule id _ => some id
  | _ => none

/-- Whether an operation produces a message that is ready at once. -/
def readies : StoreOp → Bool
  | .produce m now => m.isImmediate now
  | _ => false

theorem ne_purge_of_subject? {op : StoreOp} {x : String} (h : op.subject? = some x) :
    op ≠ .purge := by
  rintro rfl
  cases h

theorem isTake_of_subject? {op : StoreOp} {x : String} (h : op.subject? = some x) :
    op.isTake = false := by
  cases op with
  | take => cases h
  | _ => rfl

end StoreOp

namespace Space

variable {s s' : Space} {x a b : String} {op X Y : StoreOp} {retry : Duration} {cap : UInt64}
  {now : Time} {k k' : Take} {p p' q : Place}

theorem ext_of_place (h : s.Indexed) (h' : s'.Indexed) (hready : s.ready = s'.ready)
    (hplace : ∀ x, s.place x = s'.place x) : s = s' := by
  have hdue : ∀ x, s.score? x = s'.score? x := fun x => congrArg Place.due (hplace x)
  have hpending : s.pending = s'.pending := ExtTreeMap.ext_getElem? hdue
  have hrows : s.rows = s'.rows :=
    ExtTreeMap.ext_getElem? fun x => (congrArg Place.row (hplace x) :)
  have hschedule : s.schedule = s'.schedule := ExtTreeSet.ext_mem fun e => by
    obtain ⟨t, x⟩ := e
    rw [h t x, h' t x, hdue]
  cases s
  cases s'
  congr

section Subjects

theorem not_touches_of_subject? (h : op.subject? = some a) (hne : a ≠ x) : ¬ s.Touches x op := by
  cases op with
  | produce | commit => cases h; exact hne
  | reschedule => cases h; exact fun hx => hne hx.1
  | _ => cases h

theorem entered_of_subject? (h : op.subject? = some a) :
    s.entered op = if op.readies then [a] else [] := by
  cases op with
  | produce | commit | reschedule => cases h; rfl
  | _ => cases h

theorem apply_fst_congr (h : op.subject? = some a) (hp : s.place a = s'.place a) :
    (s.apply op).1 = (s'.apply op).1 := by
  have hr : s.row? a = s'.row? a := congrArg Place.row hp
  cases op with
  | produce => rfl
  | commit =>
    cases h
    have hc (s : Space) : s.rows.contains a = (s.row? a).isSome :=
      ExtTreeMap.isSome_getElem?_eq_contains.symm
    simp only [apply, commit, hc, hr]
  | reschedule _ t =>
    cases h
    cases hs : s'.row? a with
    | none => simp only [apply, reschedule_of_none (hr.trans hs), reschedule_of_none hs]
    | some row => simp only [apply, reschedule_of_some (hr.trans hs), reschedule_of_some hs]
  | _ => cases h

theorem place_apply_congr (h : op.subject? = some a) (hp : s.place a = s'.place a) :
    (s.apply op).2.place a = (s'.apply op).2.place a := by
  cases op with
  | produce =>
    cases h
    simp only [apply, place_produce_self, hp]
  | commit =>
    cases h
    simp only [apply, place_commit_self, hp]
  | reschedule _ t =>
    cases h
    have hr : s.row? a = s'.row? a := congrArg Place.row hp
    cases hs : s'.row? a with
    | none => simpa only [apply, reschedule_of_none (hr.trans hs), reschedule_of_none hs] using hp
    | some row =>
      simp only [apply, place_reschedule_self (hr.trans hs), place_reschedule_self hs]
  | _ => cases h

theorem rescheduled?_congr (h : op.subject? = some a) (hp : s.place a = s'.place a) (x : String) :
    s.rescheduled? x op = s'.rescheduled? x op := by
  cases op with
  | reschedule id t =>
    cases h
    have hflag : (s.apply (.reschedule a t)).1 = (s'.apply (.reschedule a t)).1 :=
      apply_fst_congr rfl hp
    have hf : (s.reschedule a t).1 = (s'.reschedule a t).1 := StoreResult.flag.inj hflag
    simp only [rescheduled?, hf]
  | _ => rfl

/-- What stays of the ready list stays through both operations, and what enters enters after it. -/
theorem ready_apply_apply (hX : X.subject? = some a) (hY : Y.subject? = some b) (hi : s.Indexed)
    (hne : a ≠ b) : ((s.apply X).2.apply Y).2.ready =
      (s.ready.filter (fun x => (s.rescheduled? x X).isNone)).filter
          (fun x => (s.rescheduled? x Y).isNone) ++
        ((if X.readies then [a] else []) ++ if Y.readies then [b] else []) := by
  have hplace : (s.apply X).2.place b = s.place b :=
    place_apply_of_not_touches (not_touches_of_subject? hX hne) hi
  have hkept : s.rescheduled? a Y = none :=
    rescheduled?_of_not_touches (not_touches_of_subject? hY (Ne.symm hne))
  rw [ready_apply (StoreOp.ne_purge_of_subject? hY) (StoreOp.isTake_of_subject? hY),
    ready_apply (StoreOp.ne_purge_of_subject? hX) (StoreOp.isTake_of_subject? hX)]
  simp only [rescheduled?_congr hY hplace, entered_of_subject? hX, entered_of_subject? hY,
    List.filter_append, List.append_assoc]
  cases X.readies <;> simp [hkept]

/-- An id that `X` is not about does not tell whether `X` comes first. -/
theorem place_apply_apply (hX : X.subject? = some a) (hY : Y.subject? = some b) (hi : s.Indexed)
    (hx : a ≠ x) : ((s.apply X).2.apply Y).2.place x = ((s.apply Y).2.apply X).2.place x := by
  have hX' (s : Space) : ¬ s.Touches x X := not_touches_of_subject? hX hx
  rw [place_apply_of_not_touches (hX' _) (hi.apply Y)]
  by_cases hb : b = x
  · subst hb
    exact place_apply_congr hY (place_apply_of_not_touches (hX' s) hi)
  · have hY' (s : Space) : ¬ s.Touches x Y := not_touches_of_subject? hY hb
    rw [place_apply_of_not_touches (hY' _) (hi.apply X), place_apply_of_not_touches (hX' s) hi,
      place_apply_of_not_touches (hY' s) hi]

/-- Operations on different ids can be done in either order, unless both make a message ready. -/
theorem apply_comm (hX : X.subject? = some a) (hY : Y.subject? = some b) (hi : s.Indexed)
    (hne : a ≠ b) (hr : (X.readies && Y.readies) = false) :
    ((s.apply X).2.apply Y).2 = ((s.apply Y).2.apply X).2 := by
  refine ext_of_place ((hi.apply X).apply Y) ((hi.apply Y).apply X) ?_ fun x => ?_
  · rw [ready_apply_apply hX hY hi hne, ready_apply_apply hY hX hi (Ne.symm hne),
      List.filter_comm]
    rcases Bool.and_eq_false_iff.mp hr with h | h <;> simp [h]
  · by_cases ha : a = x
    · subst ha
      exact (place_apply_apply hY hX hi (Ne.symm hne)).symm
    · exact place_apply_apply hX hY hi ha

end Subjects

section Takes

theorem Pop.unique (h : Pop x retry cap now p k q) (h' : Pop x retry cap now p k' p') :
    p' = q := by
  cases h <;> cases h' <;> grind

theorem Pop.result_unique (h : Pop x retry cap now p k q) (h' : Pop x retry cap now p k' p') :
    k' = k := by
  cases h <;> cases h' <;> grind

theorem place_takeOne_congr (h : s.ready = s'.ready) (hp : s.place x = s'.place x) :
    (s.takeOne retry cap now).2.place x = (s'.takeOne retry cap now).2.place x := by
  by_cases hh : s.ready.head? = some x
  · have hpop := pop_of_head retry cap now hh
    rw [hp] at hpop
    exact (pop_of_head retry cap now (h ▸ hh)).unique hpop
  · rw [place_takeOne_of_ne hh, place_takeOne_of_ne (h ▸ hh), hp]

theorem ready_commit : (s.commit x).2.ready = s.ready := ready_disarm

theorem place_takeOne_commit : ((s.takeOne retry cap now).2.commit x).2.place x =
    ((s.commit x).2.takeOne retry cap now).2.place x := by
  by_cases hh : s.ready.head? = some x
  · have hpop := pop_of_head retry cap now hh
    -- after the commit the popped id has no row
    have hpop' := pop_of_head retry cap now (s := (s.commit x).2) (by rwa [ready_commit])
    rw [place_commit_self] at hpop' ⊢
    rw [(Pop.dangling rfl).unique hpop', hpop.copies_eq]
  · have hh' : (s.commit x).2.ready.head? ≠ some x := by rwa [ready_commit]
    rw [place_takeOne_of_ne hh', place_commit_self, place_commit_self, place_takeOne_of_ne hh]

theorem takeOne_commit (hi : s.Indexed) (x : String) : ((s.takeOne retry cap now).2.commit x).2 =
    ((s.commit x).2.takeOne retry cap now).2 := by
  refine ext_of_place ((hi.takeOne retry cap now).apply (.commit x))
    ((hi.apply (.commit x)).takeOne retry cap now) ?_ fun y => ?_
  · rw [ready_commit, ready_takeOne, ready_takeOne, ready_commit]
  · by_cases hy : x = y
    · subst hy
      exact place_takeOne_commit
    · rw [place_commit_of_ne hy]
      exact place_takeOne_congr ready_commit.symm (place_commit_of_ne hy).symm

end Takes

end Space

namespace Store

variable {s : Store} {k : Keys} {a b x : String} {X Y : StoreOp} {retry : Duration}
  {cap : UInt64} {now : Time} {op : StoreOp}

theorem apply_comm (hX : X ≠ .purge) (hY : Y ≠ .purge)
    (h : (((s.space k).apply X).2.apply Y).2 = (((s.space k).apply Y).2.apply X).2) :
    ((s.apply k X).2.apply k Y).2 = ((s.apply k Y).2.apply k X).2 := by
  rw [apply_apply_snd hX hY, apply_apply_snd hY hX, h, Bool.or_comm X.makesSpace]

/-- The order of two operations that are about different ids of one queue does not matter, be they
commits, reschedules or produced messages, unless both produce a message that is ready at once:
both are answered the same in either order, and the store is the same after it. Nor does it matter
to the store whether an id is committed before a take or after it. -/
theorem order_of_independent (ops : List (Keys × StoreOp)) (k : Keys) :
    let s := empty.runAll ops
    (∀ a b X Y, a ≠ b → X.subject? = some a → Y.subject? = some b →
      ¬ (X.readies = true ∧ Y.readies = true) →
      (s.apply k X).1 = ((s.apply k Y).2.apply k X).1 ∧
      ((s.apply k X).2.apply k Y).1 = (s.apply k Y).1 ∧
      ((s.apply k X).2.apply k Y).2 = ((s.apply k Y).2.apply k X).2) ∧
    ∀ x retry cap now,
      ((s.apply k (.take retry cap now)).2.apply k (.commit x)).2 =
        ((s.apply k (.commit x)).2.apply k (.take retry cap now)).2 := by
  intro s
  have hi : (s.space k).Indexed := indexed_runAll k ops
  constructor
  · intro a b X Y hne hX hY hr
    have hpX : ((s.space k).apply Y).2.place a = (s.space k).place a :=
      Space.place_apply_of_not_touches (Space.not_touches_of_subject? hY (Ne.symm hne)) hi
    have hpY : ((s.space k).apply X).2.place b = (s.space k).place b :=
      Space.place_apply_of_not_touches (Space.not_touches_of_subject? hX hne) hi
    refine ⟨?_, ?_, ?_⟩
    · rw [apply_fst, apply_fst, space_apply]
      exact Space.apply_fst_congr hX hpX.symm
    · rw [apply_fst, apply_fst, space_apply]
      exact Space.apply_fst_congr hY hpY
    · refine apply_comm (StoreOp.ne_purge_of_subject? hX) (StoreOp.ne_purge_of_subject? hY) ?_
      exact Space.apply_comm hX hY hi hne (Bool.eq_false_iff.mpr (by simpa using hr))
  · intro x retry cap now
    exact apply_comm nofun nofun (Space.takeOne_commit hi x)

/-- A run after which `a` is ready and `b` is pending. -/
def apartRun : List (Keys × StoreOp) :=
  [(.ofName "q", .produce ⟨"a", [1], .epoch, none, none, 0⟩ .epoch),
    (.ofName "q", .produce ⟨"b", [2], .epoch, some .latest, none, 0⟩ .epoch)]

/-- A message that is ready at once, whose id may be known. -/
def promptMessage (id : String) : StoreOp := .produce ⟨id, [3], .epoch, none, none, 0⟩ .epoch

/-- One message is made ready in the place of a pending one while another leaves the ready list. -/
theorem order_of_independent_apart :
    let s := empty.runAll apartRun
    "a" ≠ "b" ∧ (StoreOp.reschedule "a" .latest).subject? = some "a" ∧
    (promptMessage "b").subject? = some "b" ∧
    ¬ ((StoreOp.reschedule "a" .latest).readies = true ∧ (promptMessage "b").readies = true) ∧
    (s.apply (.ofName "q") (.reschedule "a" .latest)).1 = .flag true ∧
    ((s.apply (.ofName "q") (promptMessage "b")).2.apply (.ofName "q")
      (.reschedule "a" .latest)).1 = .flag true ∧
    ((s.apply (.ofName "q") (.reschedule "a" .latest)).2.apply (.ofName "q")
        (promptMessage "b")).2 =
      ((s.apply (.ofName "q") (promptMessage "b")).2.apply (.ofName "q")
        (.reschedule "a" .latest)).2 ∧
    ((s.apply (.ofName "q") (.take .zero 1 .epoch)).2.apply (.ofName "q") (.commit "a")).2 =
      ((s.apply (.ofName "q") (.commit "a")).2.apply (.ofName "q") (.take .zero 1 .epoch)).2 := by
  intro s
  have hne : "a" ≠ "b" := by decide
  have hr : ¬ ((StoreOp.reschedule "a" .latest).readies = true ∧
      (promptMessage "b").readies = true) := by decide
  have hf : (s.apply (.ofName "q") (.reschedule "a" .latest)).1 = .flag true := by decide +kernel
  obtain ⟨hpairs, htake⟩ := order_of_independent apartRun (.ofName "q")
  obtain ⟨hX, -, hstore⟩ :=
    hpairs "a" "b" (.reschedule "a" .latest) (promptMessage "b") hne rfl rfl hr
  exact ⟨hne, rfl, rfl, hr, hf, hX.symm.trans hf, hstore, htake "a" .zero 1 .epoch⟩

/-- Of two messages that are ready at once the one that is produced first is first in line. -/
example :
    (((empty.run (.ofName "q") [promptMessage "a", promptMessage "b"]).space (.ofName "q")).ready,
      ((empty.run (.ofName "q") [promptMessage "b", promptMessage "a"]).space (.ofName "q")).ready)
    = (["a", "b"], ["b", "a"]) := by
  decide +kernel

end Store

end DelayedQueue
