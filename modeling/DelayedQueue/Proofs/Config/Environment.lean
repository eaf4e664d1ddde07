import DelayedQueue.Config.Environment
import DelayedQueue.Proofs.Text.Decimal

/-! # A configuration from variables

The name is taken as it is given, and a number is taken from the literal that spells it. A variable
that is not given leaves the default.
-/

namespace DelayedQueue.Config

variable {e : Environment} {c c' : Config} {limit : Nat} {raw : Option String}

/-- What is left of an old value, or made of the number that a text spells instead. -/
inductive Reads {α : Type} (limit : Nat) (make : Nat → α) (old : α) : Option String → α → Prop where

  | absent : Reads limit make old none old

  | number {text : String} {n : Nat} : Decimal.Spells text.toList n → n ≤ limit →
      Reads limit make old (some text) (make n)

theorem Variable.read_eq_ok_iff {v : Variable} :
    v.read e c = .ok c' ↔ Reads v.limit (v.set c) c (e.get? v.name) c' := by
  unfold Variable.read
  cases e.get? v.name with
  | none =>
    constructor
    · intro h
      cases h
      exact .absent
    · intro h
      cases h
      rfl
  | some text =>
    constructor
    · intro h
      dsimp only at h
      split at h
      · next n hn =>
        cases h
        obtain ⟨hs, hle⟩ := Decimal.parseUnsigned_eq_ok_iff.mp hn
        exact .number hs hle
      · cases h
    · intro h
      cases h with
      | number hs hle => simp only [Decimal.parseUnsigned_eq_ok_iff.mpr ⟨hs, hle⟩]

theorem Reads.exists_update {α : Type} {make : Nat → α} (part : Config → α)
    (update : Config → α → Config) (hold : ∀ c, update c (part c) = c)
    (h : Reads limit (fun n => update c (make n)) c raw c') :
    ∃ a, Reads limit make (part c) raw a ∧ update c a = c' := by
  cases h with
  | absent => exact ⟨part c, .absent, hold c⟩
  | number hs hle => exact ⟨_, .number hs hle, rfl⟩

theorem readVariables_cons_eq_ok_iff {v : Variable} {vs : List Variable} :
    readVariables e (v :: vs) c = .ok c' ↔
      ∃ c₁, Reads v.limit (v.set c) c (e.get? v.name) c₁ ∧ readVariables e vs c₁ = .ok c' := by
  simp only [← Variable.read_eq_ok_iff, readVariables]
  cases v.read e c <;> simp

/-- What the variables make of a configuration. -/
structure Sets (e : Environment) (c c' : Config) : Prop where
  name : c'.name = c.name
  retryInterval : Reads wordLimit (.ofMillis <| .ofNat ·) c.retryInterval
    (e.get? "DQ_RETRY_INTERVAL_MS") c'.retryInterval
  retryTimes : Reads halfWordLimit .ofNat c.retryTimes (e.get? "DQ_RETRY_TIMES") c'.retryTimes
  workerCount : Reads wordLimit .ofNat c.workerCount (e.get? "DQ_WORKER_COUNT") c'.workerCount
  pollInterval : Reads wordLimit (.ofMillis <| .ofNat ·) c.pollInterval
    (e.get? "DQ_POLL_INTERVAL_MS") c'.pollInterval
  daemonInterval : Reads wordLimit (.ofMillis <| .ofNat ·) c.daemonInterval
    (e.get? "DQ_DAEMON_INTERVAL_MS") c'.daemonInterval
  consumeTimeout : Reads wordLimit (.ofMillis <| .ofNat ·) c.consumeTimeout
    (e.get? "DQ_CONSUME_TIMEOUT_MS") c'.consumeTimeout
  promoteBatchSize : c'.promoteBatchSize = c.promoteBatchSize
  rateLimit : c'.rateLimit = c.rateLimit

theorem sets_of_readVariables (h : readVariables e numericVariables c = .ok c') : Sets e c c' := by
  unfold numericVariables at h
  simp only [readVariables_cons_eq_ok_iff] at h
  obtain ⟨_, h₁, _, h₂, _, h₃, _, h₄, _, h₅, _, h₆, hc⟩ := h
  cases hc
  obtain ⟨_, hretry, rfl⟩ := h₁.exists_update Config.retryInterval
    (fun c d => { c with retryInterval := d }) fun _ => rfl
  obtain ⟨_, htimes, rfl⟩ := h₂.exists_update Config.retryTimes
    (fun c n => { c with retryTimes := n }) fun _ => rfl
  obtain ⟨_, hcount, rfl⟩ := h₃.exists_update Config.workerCount
    (fun c n => { c with workerCount := n }) fun _ => rfl
  obtain ⟨_, hpoll, rfl⟩ := h₄.exists_update Config.pollInterval
    (fun c d => { c with pollInterval := d }) fun _ => rfl
  obtain ⟨_, hdaemon, rfl⟩ := h₅.exists_update Config.daemonInterval
    (fun c d => { c with daemonInterval := d }) fun _ => rfl
  obtain ⟨_, hconsume, rfl⟩ := h₆.exists_update Config.consumeTimeout
    (fun c d => { c with consumeTimeout := d }) fun _ => rfl
  exact ⟨rfl, hretry, htimes, hcount, hpoll, hdaemon, hconsume, rfl, rfl⟩

theorem sets_of_ofEnvironment (h : ofEnvironment e = .ok c) :
    Sets e { name := (e.get? "DQ_QUEUE_NAME").getD "default" } c ∧ c.validate = .ok () := by
  unfold ofEnvironment at h
  dsimp only at h
  split at h
  · cases h
  next hread =>
  split at h
  · cases h
  next hvalid =>
  cases h
  exact ⟨sets_of_readVariables hread, hvalid⟩

end DelayedQueue.Config
