import Mathlib.Tactic.SplitIfs
import DelayedQueue.Config.Basic

/-! # Accepted configurations

What `validate` looks for, and so what holds of every configuration that it accepts.
-/

namespace DelayedQueue.Config

variable {c : Config} {f : Fault}

/-- What a fault says of the configuration. -/
inductive Faulty (c : Config) : Fault → Prop where
  | emptyName : c.name.isEmpty → Faulty c .emptyName
  | noWorkers : c.workerCount = 0 → Faulty c .noWorkers
  | batchSize : c.promoteBatchSize = 0 ∨ largestBatch < c.promoteBatchSize.toNat →
      Faulty c .batchSize
  | zero {i : Interval} : (c.interval i).isZero → Faulty c (.zero i)
  | emptyRateLimit {r : RateLimit} : c.rateLimit = some r → r.interval.isZero || r.burst == 0 →
      Faulty c .emptyRateLimit

theorem Interval.mem_all (i : Interval) : i ∈ all := by cases i <;> decide

theorem faulty_of_fault? (h : c.fault? = some f) : c.Faulty f := by
  unfold fault? at h
  split_ifs at h with hname hworkers hbatch
  · cases h; exact .emptyName hname
  · cases h; exact .noWorkers hworkers
  · cases h; exact .batchSize hbatch
  · split at h
    · next i hi =>
      cases h
      exact .zero (List.find?_some (p := fun i => (c.interval i).isZero) hi)
    · split at h
      · cases h
      · next r hr =>
        split_ifs at h with hempty
        cases h
        exact .emptyRateLimit hr hempty

theorem fault?_eq_none_iff : c.fault? = none ↔ ∀ f, ¬ c.Faulty f := by
  constructor
  · intro h f hf
    unfold fault? at h
    split_ifs at h with hname hworkers hbatch
    split at h
    · cases h
    · next hzero =>
      cases hf with
      | emptyName h => exact hname h
      | noWorkers h => exact hworkers h
      | batchSize h => exact hbatch h
      | @zero i h => exact List.find?_eq_none.mp hzero i i.mem_all h
      | emptyRateLimit hr h' => simp [hr, h'] at h
  · exact fun h => Option.eq_none_iff_forall_ne_some.mpr fun f hf => h f (faulty_of_fault? hf)

theorem validate_eq_ok_iff : c.validate = .ok () ↔ ∀ f, ¬ c.Faulty f := by
  rw [← fault?_eq_none_iff]
  unfold validate
  cases c.fault? <;> simp

theorem promoteBatchSize_pos (h : c.validate = .ok ()) : 0 < c.promoteBatchSize.toNat := by
  refine Nat.pos_of_ne_zero fun hz => ?_
  exact validate_eq_ok_iff.mp h _ (.batchSize (.inl (UInt64.toNat_inj.mp hz)))

theorem rateLimit_pos {r : RateLimit} (h : c.validate = .ok ()) (hr : c.rateLimit = some r) :
    0 < r.interval.nanos ∧ 0 < r.burst.toNat := by
  have hz : (r.interval.isZero || r.burst == 0) = false :=
    Bool.eq_false_iff.mpr fun hz => validate_eq_ok_iff.mp h _ (.emptyRateLimit hr hz)
  obtain ⟨hi, hb⟩ := Bool.or_eq_false_iff.mp hz
  constructor
  · exact Nat.pos_of_ne_zero fun he => by simp [Duration.isZero, he] at hi
  · exact Nat.pos_of_ne_zero fun he => beq_eq_false_iff_ne.mp hb (UInt32.toNat_inj.mp he)

end DelayedQueue.Config
