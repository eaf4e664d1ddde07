import Mathlib.Data.List.Chain
import DelayedQueue.Proofs.Queue.Outline

/-! # What workers have done

The deeds of a worker agree with the phase that it is in: a handler at work has been invoked, and
has its deadline from then; each success is followed by its commit. Once the token is cancelled no
worker takes or begins anything, and nobody but the worker itself moves what its handler is at.
-/

namespace DelayedQueue

namespace Entry

/-- Whether this is a take, or a handler that begins. -/
def opens : Entry → Bool
  | .attempted _ | .invoked .. => true
  | _ => false

theorem isDeed_of_opens {e : Entry} (h : e.opens = true) : e.isDeed = true := by
  cases e with
  | attempted | invoked => rfl
  | _ => cases h

end Entry

section Ledger

variable {begun : Clocks} {i : Nat} {owed owed' : Option Message} {e : Instant × Entry}
  {ds : List (Instant × Entry)}

/-- Worker `i` has seen the handler of `m` return without an error, and could read the clock. -/
def Succeeds (begun : Clocks) (i : Nat) (m : Message) (e : Instant × Entry) : Prop :=
  e.2 = .ended i m .success ∧ ∃ now, WallClock.readAt begun e.1 = .ok now

/-- The deeds of worker `i`, the latest first: each success is followed by its commit, but for
that of the message `owed`, which has just been handled. -/
structure Answered (begun : Clocks) (i : Nat) (owed : Option Message)
    (ds : List (Instant × Entry)) : Prop where
  chain : ds.IsChain fun new old => ∀ m, Succeeds begun i m old → new.2 = .committed i m.id
  head : ∀ e ∈ ds.head?, ∀ m, Succeeds begun i m e → owed = some m

namespace Answered

theorem nil : Answered begun i owed [] := ⟨.nil, by simp⟩

theorem cons (h : Answered begun i owed ds) (he : ∀ m, owed = some m → e.2 = .committed i m.id)
    (ho : ∀ m, Succeeds begun i m e → owed' = some m) : Answered begun i owed' (e :: ds) where
  chain := List.isChain_cons.mpr ⟨fun old hold m hm => he m (h.head old hold m hm), h.chain⟩
  head e' he' m hm := by
    obtain rfl := Option.some.inj he'
    exact ho m hm

theorem of_none (h : Answered begun i none ds) : Answered begun i owed ds :=
  ⟨h.chain, fun e he m hm => nomatch h.head e he m hm⟩

theorem note (h : Answered begun i none ds) (he : ∀ m, e.2 ≠ .ended i m .success) :
    Answered begun i none (e :: ds) :=
  h.cons (by simp) fun m hm => absurd hm.1 (he m)

/-- If nothing is owed, the deed after each success is its commit. -/
theorem exists_committed {l l' : List (Instant × Entry)} {m : Message}
    (h : Answered begun i none (l ++ e :: l')) (he : Succeeds begun i m e) :
    ∃ t, l.getLast? = some (t, .committed i m.id) := by
  cases hl : l.getLast? with
  | none =>
    obtain rfl := List.getLast?_eq_none_iff.mp hl
    exact nomatch h.head e rfl m he
  | some new =>
    obtain ⟨t, x⟩ := new
    have hx : x = .committed i m.id := (List.isChain_append.mp h.chain).2.2 _ hl e rfl m he
    exact ⟨t, by rw [hx]⟩

end Answered

end Ledger

/-- The message that a worker in this phase is about to commit. -/
def Worker.Phase.owes : Worker.Phase → Option Message
  | .settling m _ .success => some m
  | _ => none

theorem Worker.Phase.Waits.owes {p : Worker.Phase} (h : p.Waits) : p.owes = none := by
  cases h <;> rfl

theorem Worker.Phase.HasEnded.owes {p : Worker.Phase} (h : p.HasEnded) : p.owes = none := by
  rcases h with rfl | rfl <;> rfl

namespace Outline

variable {o o' : Outline} {m : Queue.Move} {i j : Nat} {p p' : Worker.Phase} {es : List Entry}
  {c : Crew} {d : Delivery} {cancelled : Bool}

def phase? (o : Outline) (i : Nat) : Option Worker.Phase := o.crew.bind fun c => c.workers[i]?

def deedsOf (o : Outline) (i : Nat) : List (Instant × Entry) :=
  o.deeds.filter fun e => e.2.worker? == some i

section Turns

theorem Turn.worker? (h : o.Turn i cancelled p p' es) : ∀ e ∈ es, e.worker? = some i := by
  cases h with
  | poll _ _ h => cases h <;> simp [Entry.worker?]
  | _ => simp [Entry.worker?]

theorem Turn.not_opens (h : o.Turn i true p p' es) : ∀ e ∈ es, e.opens = false := by
  cases h with
  | poll hc => cases hc
  | _ => simp [Entry.opens]

theorem Turn.answered {ds : List (Instant × Entry)} (h : o.Turn i cancelled p p' es)
    (hf : ∀ n, (.commit, n) ∉ o.plan) (ha : Answered o.begun i p.owes ds) :
    Answered o.begun i p'.owes (es.map (Prod.mk o.now) ++ ds) := by
  cases h with
  | start | await | goOn | leave => exact ha
  | stop _ hp => rw [hp.owes] at ha; exact ha
  | poll _ hp h =>
    rw [hp.owes] at ha
    cases h with
    | throttled | blind => exact ha
    | lost | nothing => exact ha.note fun _ he => by cases he
    | invoked m a => exact (ha.note fun _ he => by cases he).note fun _ he => by cases he
  | ended h hw =>
    refine ha.cons (by simp [Worker.Phase.owes]) fun m hm => ?_
    obtain ⟨he, -⟩ := hm
    cases he
    rfl
  | ended_blind h hw =>
    refine ha.cons (by simp [Worker.Phase.owes]) fun m hm => ?_
    obtain ⟨-, now, hnow⟩ := hm
    rw [hw] at hnow
    cases hnow
  | commit => exact ha.cons (fun m hm => Option.some.inj hm ▸ rfl) fun m hm => by cases hm.1
  | commit_fails h => exact absurd h (hf _)

theorem Turn.handling (h : o.Turn i cancelled (.handling d) p' es) :
    (∃ a wake, d.activity.Leads a ∧ p' = .handling { d with activity := a, wake }) ∨
      ∃ r, o.Ends d r ∧ es = [.ended i d.message r] := by
  cases h with
  | stop _ hp => cases hp
  | poll _ hp => cases hp
  | goOn h => exact .inl ⟨_, _, h, rfl⟩
  | ended h => exact .inr ⟨_, h, rfl⟩
  | ended_blind h => exact .inr ⟨_, h, rfl⟩

theorem Turn.to_handling (h : o.Turn i cancelled p (.handling d) es) :
    (∃ d', p = .handling d' ∧ d'.message = d.message ∧ d'.deadline = d.deadline) ∨
      .invoked i d.message ∈ es ∧ d.deadline = o.now.deadline o.config.consumeTimeout := by
  cases h with
  | goOn h => exact .inl ⟨_, rfl, rfl, rfl⟩
  | poll _ _ h => cases h with
    | invoked m a => exact .inr ⟨List.mem_cons_self, rfl⟩

end Turns

section Phases

theorem phase?_cancel (i : Nat) :
    (o.crew.map Crew.cancel).bind (fun c => c.workers[i]?) = o.phase? i := by
  rw [phase?]
  cases o.crew <;> rfl

theorem phase?_setCrew {c' : Crew} (hc : o.crew = some c) (hw : c'.workers = c.workers) (i : Nat) :
    (o.setCrew c').phase? i = o.phase? i := by
  simp only [phase?, setCrew, hc, Option.bind_some, hw]

theorem phase?_put (hc : o.crew = some c) (hi : c.workers[i]? = some p) (j : Nat) :
    (o.put i p' es).phase? j = if i = j then some p' else o.phase? j := by
  have hlt : i < c.workers.length := (List.getElem?_eq_some_iff.mp hi).1
  simp only [phase?, put, hc, Option.map_some, Option.bind_some, Crew.setPhase]
  split
  · next he => subst he; exact List.getElem?_set_self hlt
  · next he => exact List.getElem?_set_ne he

theorem deedsOf_put (he : ∀ e ∈ es, e.worker? = some i) (j : Nat) :
    (o.put i p' es).deedsOf j =
      (if i = j then es.map (Prod.mk o.now) else []) ++ o.deedsOf j := by
  have hes : (es.map (Prod.mk o.now)).filter (fun e => e.2.worker? == some j) =
      if i = j then es.map (Prod.mk o.now) else [] := by
    rw [List.filter_map]
    split
    · next hj =>
      rw [List.filter_eq_self.mpr]
      intro x hx
      simp [he x hx, hj]
    · next hj =>
      rw [List.filter_eq_nil_iff.mpr, List.map_nil]
      intro x hx
      simp [he x hx, hj]
  rw [← hes]
  exact List.filter_append _ _

end Phases

/-- What the workers have done agrees with where they are. -/
structure Kept (config : Config) (begun : Clocks) (o : Outline) : Prop where
  config_eq : o.config = config
  begun_eq : o.begun = begun
  reliable : ∀ n, (.commit, n) ∉ o.plan
  invoked : ∀ i d, o.phase? i = some (.handling d) →
    ∃ t, (t, .invoked i d.message) ∈ o.deeds ∧ d.deadline = t.deadline config.consumeTimeout
  answered : ∀ i, Answered begun i ((o.phase? i).bind Worker.Phase.owes) (o.deedsOf i)

namespace Kept

variable {config : Config} {begun : Clocks}

theorem of_eq (h : o.Kept config begun) (hc : o'.config = o.config) (hb : o'.begun = o.begun)
    (hp : o'.plan = o.plan) (hd : o'.deeds = o.deeds) (hph : ∀ i, o'.phase? i = o.phase? i) :
    o'.Kept config begun where
  config_eq := hc.trans h.config_eq
  begun_eq := hb.trans h.begun_eq
  reliable := hp ▸ h.reliable
  invoked i d hi := hd ▸ h.invoked i d (hph i ▸ hi)
  answered i := by
    have ha := h.answered i
    rw [← hph i, deedsOf, ← hd] at ha
    exact ha

theorem consume (h : o.Kept config begun) (hc : o.crew = none) (l : Lifecycle) (n : Nat) :
    Kept config begun { o with lifecycle := l, crew := some (.fresh n) } where
  config_eq := h.config_eq
  begun_eq := h.begun_eq
  reliable := h.reliable
  invoked i d hi := by
    have hw : (List.replicate n Worker.Phase.fresh)[i]? = some (.handling d) := hi
    obtain hd := List.eq_of_mem_replicate (List.mem_of_getElem? hw)
    cases hd
  answered i := by
    have ha := h.answered i
    rw [phase?, hc] at ha
    exact ha.of_none

theorem put (h : o.Kept config begun) (hc : o.crew = some c) (hi : c.workers[i]? = some p)
    (ht : o.Turn i cancelled p p' es) : (o.put i p' es).Kept config begun where
  config_eq := h.config_eq
  begun_eq := h.begun_eq
  reliable := h.reliable
  invoked j d hj := by
    have hold : o.phase? i = some p := by rw [phase?, hc]; exact hi
    have hmono {e : Instant × Entry} (he : e ∈ o.deeds) : e ∈ (o.put i p' es).deeds :=
      List.mem_append_right _ he
    rw [phase?_put hc hi] at hj
    split at hj
    · next he =>
      subst he
      cases hj
      rcases ht.to_handling with ⟨d', rfl, hm, hd⟩ | ⟨he, hd⟩
      · obtain ⟨t, hin, ht⟩ := h.invoked i d' hold
        exact ⟨t, hmono (hm ▸ hin), hd ▸ ht⟩
      · refine ⟨o.now, List.mem_append_left _ (List.mem_map_of_mem he), ?_⟩
        rw [hd, h.config_eq]
    · obtain ⟨t, hin, ht⟩ := h.invoked j d hj
      exact ⟨t, hmono hin, ht⟩
  answered j := by
    have hold : o.phase? i = some p := by rw [phase?, hc]; exact hi
    have ha := h.answered j
    rw [phase?_put hc hi, deedsOf_put ht.worker?]
    split
    · next hj =>
      subst hj
      rw [hold, ← h.begun_eq] at ha
      rw [← h.begun_eq]
      exact ht.answered h.reliable ha
    · exact ha

theorem step (h : o.Kept config begun) (hf : o.lifecycle.Fits o.crew) (hs : o.Step m o') :
    o'.Kept config begun := by
  cases hs with
  | stay => exact h
  | elapse | close | closed | late => exact h.of_eq rfl rfl rfl rfl fun _ => rfl
  | consume base hasExecutor workers hl =>
    exact h.consume (hf.crew_eq_none hl) _ _
  | shutDown => exact h.of_eq rfl rfl rfl rfl phase?_cancel
  | publish hc | daemon hc => exact h.of_eq rfl rfl rfl rfl (phase?_setCrew hc rfl)
  | worker hc hi ht => exact h.put hc hi ht

end Kept

/-- Nobody takes back a cancellation, and after it no worker takes or begins anything. -/
theorem Step.of_cancelled (h : o.Step m o') (hf : o.lifecycle.Fits o.crew)
    (hc : ∃ c, o.crew = some c ∧ c.cancelled = true) :
    (∃ c, o'.crew = some c ∧ c.cancelled = true) ∧
      o'.deeds.filter (fun e => e.2.opens) = o.deeds.filter fun e => e.2.opens := by
  obtain ⟨c, hc, hcancel⟩ := hc
  cases h with
  | stay | elapse | close | closed | late => exact ⟨⟨c, hc, hcancel⟩, rfl⟩
  | consume base hasExecutor workers hl =>
    rw [hl, hc] at hf
    cases hf
  | shutDown d hl => exact ⟨⟨c.cancel, congrArg (Option.map Crew.cancel) hc, rfl⟩, rfl⟩
  | publish hc' | daemon hc' =>
    obtain rfl := Option.some.inj (hc.symm.trans hc')
    exact ⟨⟨_, rfl, hcancel⟩, rfl⟩
  | @worker c' i p p' es hc' hi ht =>
    obtain rfl := Option.some.inj (hc.symm.trans hc')
    refine ⟨⟨c.setPhase i p', congrArg (Option.map _) hc, hcancel⟩, ?_⟩
    rw [hcancel] at ht
    have hes : (es.map (Prod.mk o.now)).filter (fun e => e.2.opens) = [] := by
      rw [List.filter_map, List.filter_eq_nil_iff.mpr, List.map_nil]
      intro x hx
      simp [ht.not_opens x hx]
    simp only [put, List.filter_append, hes, List.nil_append]

theorem Step.phase?_eq (h : o.Step m o') (hf : o.lifecycle.Fits o.crew)
    (hm : m ≠ .step (.worker i)) (hi : o.phase? i = some p) : o'.phase? i = some p := by
  cases h with
  | stay | elapse | close | closed | late => exact hi
  | consume base hasExecutor workers hl =>
    rw [phase?, hf.crew_eq_none hl] at hi
    cases hi
  | shutDown => exact (phase?_cancel i).trans hi
  | publish hc | daemon hc => exact (phase?_setCrew hc rfl i).trans hi
  | @worker c j p p' es hc hj ht =>
    have hne : j ≠ i := fun he => hm (he ▸ rfl)
    exact (phase?_put hc hj i).trans ((if_neg hne).trans hi)

theorem Step.handling (h : o.Step m o') (hf : o.lifecycle.Fits o.crew)
    (hd : o.phase? i = some (.handling d)) :
    o'.phase? i = some (.handling d) ∨ m = .step (.worker i) ∧
      ((∃ a wake, d.activity.Leads a ∧
          o'.phase? i = some (.handling { d with activity := a, wake })) ∨
        ∃ r, o.Ends d r ∧ (o.now, .ended i d.message r) ∈ o'.deeds) := by
  by_cases hm : m = .step (.worker i)
  · subst hm
    cases h with
    | stay => exact .inl hd
    | @worker c i p p' es hc hi ht =>
      have hp : p = .handling d := by
        rw [phase?, hc] at hd
        exact Option.some.inj (hi.symm.trans hd)
      subst hp
      have hp' : (o.put i p' es).phase? i = some p' := (phase?_put hc hi i).trans (if_pos rfl)
      refine .inr ⟨rfl, ?_⟩
      rcases ht.handling with ⟨a, wake, ha, rfl⟩ | ⟨r, hr, rfl⟩
      · exact .inl ⟨a, wake, ha, hp'⟩
      · exact .inr ⟨r, hr, List.mem_cons_self⟩
  · exact .inl (h.phase?_eq hf hm hd)

end Outline

end DelayedQueue
