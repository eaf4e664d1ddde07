import DelayedQueue.Config.Settings
import DelayedQueue.Proofs.Config.Validity

/-! # Exported configurations

A configuration that is written down as settings and read back has lost what its durations have
below a millisecond, and nothing else as long as their milliseconds fit 64 bits. A duration of less
than a millisecond is lost as a whole, and a configuration with such a duration is refused.
-/

namespace DelayedQueue

open Config (Interval Fault)

variable {c : Config} {d : Duration} {g : Duration → Duration} {f : Fault}

namespace Duration

/-- Whether the whole milliseconds can be counted in 64 bits. -/
def FitsMillis (d : Duration) : Prop := d.millis < UInt64.size

instance (d : Duration) : Decidable d.FitsMillis := inferInstanceAs (Decidable (_ < _))

/-- `d'` is `d` down to the millisecond, so the two are less than one apart. -/
structure RoundsTo (d d' : Duration) : Prop where
  nanos_eq : d'.nanos = d.millis * 1000000
  le : d' ≤ d
  lt_add : d.nanos < d'.nanos + 1000000

/-- What is read back of a duration that was written down. -/
def exported (d : Duration) : Duration := .ofMillis (Config.wrappedMillis d)

theorem nanos_exported (d : Duration) :
    d.exported.nanos = d.millis % UInt64.size * 1000000 := by
  simp [exported, ofMillis, Config.wrappedMillis]

theorem FitsMillis.roundsTo (h : d.FitsMillis) : d.RoundsTo d.exported := by
  have hnanos : d.exported.nanos = d.millis * 1000000 := by
    rw [nanos_exported, Nat.mod_eq_of_lt h]
  refine ⟨hnanos, ?_, ?_⟩
  · exact Nat.le_trans (Nat.le_of_eq hnanos) (Nat.div_mul_le_self d.nanos 1000000)
  · rw [hnanos, millis]
    omega

theorem isZero_exported_iff : d.exported.isZero ↔ d.millis % UInt64.size = 0 := by
  simp only [isZero, nanos_exported, beq_iff_eq]
  omega

end Duration

namespace Config

/-- All durations there are. -/
def durations (c : Config) : List Duration :=
  Interval.all.map c.interval ++ (c.rateLimit.map RateLimit.interval).toList

theorem mem_durations_iff : d ∈ c.durations ↔
    (∃ i, c.interval i = d) ∨ ∃ r, c.rateLimit = some r ∧ r.interval = d := by
  simp [durations, Interval.mem_all]

/-- The duration that a fault blames. -/
def Fault.duration? (c : Config) : Fault → Option Duration
  | .zero i => some (c.interval i)
  | .emptyRateLimit => c.rateLimit.map RateLimit.interval
  | _ => none

def mapDurations (g : Duration → Duration) (c : Config) : Config :=
  { c with
    retryInterval := g c.retryInterval
    pollInterval := g c.pollInterval
    daemonInterval := g c.daemonInterval
    consumeTimeout := g c.consumeTimeout
    rateLimit := c.rateLimit.map fun r => { r with interval := g r.interval } }

@[simp] theorem interval_mapDurations (i : Interval) :
    (c.mapDurations g).interval i = g (c.interval i) := by
  cases i <;> rfl

theorem rateLimit_mapDurations : (c.mapDurations g).rateLimit =
    c.rateLimit.map fun r => { r with interval := g r.interval } := rfl

/-- Other durations can only be at fault for being zero. -/
theorem exists_isZero_of_faulty (h : c.validate = .ok ()) (hf : (c.mapDurations g).Faulty f) :
    ∃ d ∈ c.durations, f.duration? c = some d ∧ (g d).isZero := by
  rw [validate_eq_ok_iff] at h
  cases hf with
  | emptyName hname => exact absurd (.emptyName hname) (h _)
  | noWorkers hworkers => exact absurd (.noWorkers hworkers) (h _)
  | batchSize hbatch => exact absurd (.batchSize hbatch) (h _)
  | @zero i hi =>
    rw [interval_mapDurations] at hi
    exact ⟨_, mem_durations_iff.mpr (.inl ⟨i, rfl⟩), rfl, hi⟩
  | emptyRateLimit hmap hempty =>
    obtain ⟨r, hr, rfl⟩ := Option.map_eq_some_iff.mp hmap
    have hblame : Fault.emptyRateLimit.duration? c = some r.interval := by
      rw [Fault.duration?, hr, Option.map_some]
    refine ⟨_, mem_durations_iff.mpr (.inr ⟨r, hr, rfl⟩), hblame, ?_⟩
    refine (Bool.or_eq_true_iff.mp hempty).resolve_right fun hburst => ?_
    exact h _ (.emptyRateLimit hr (Bool.or_eq_true_iff.mpr (.inr hburst)))

theorem exists_faulty_of_isZero (hd : d ∈ c.durations) (hz : (g d).isZero) :
    ∃ f, (c.mapDurations g).Faulty f := by
  obtain ⟨i, rfl⟩ | ⟨r, hr, rfl⟩ := mem_durations_iff.mp hd
  · exact ⟨_, .zero (i := i) (by rwa [interval_mapDurations])⟩
  · exact ⟨_, .emptyRateLimit (by rw [rateLimit_mapDurations, hr]; rfl) (by simp [hz])⟩

/-- What of a configuration is found again in `c'`: everything but its durations, and these to the
millisecond if they fit. -/
structure ExportsTo (c c' : Config) : Prop where
  name : c'.name = c.name
  retryTimes : c'.retryTimes = c.retryTimes
  workerCount : c'.workerCount = c.workerCount
  promoteBatchSize : c'.promoteBatchSize = c.promoteBatchSize
  interval : ∀ i, (c.interval i).FitsMillis → (c.interval i).RoundsTo (c'.interval i)
  rateLimit : Option.Rel (fun r r' => r'.burst = r.burst ∧
    (r.interval.FitsMillis → r.interval.RoundsTo r'.interval)) c.rateLimit c'.rateLimit

theorem exportsTo_exported (c : Config) : c.ExportsTo (c.mapDurations .exported) where
  name := rfl
  retryTimes := rfl
  workerCount := rfl
  promoteBatchSize := rfl
  interval i hi := by
    rw [interval_mapDurations]
    exact hi.roundsTo
  rateLimit := by
    rw [rateLimit_mapDurations]
    cases c.rateLimit with
    | none => exact .none
    | some r =>
      exact .some ⟨rfl, fun hr => hr.roundsTo⟩

end Config

namespace Settings

theorem toConfig_ofConfig_eq : (ofConfig c).toConfig =
    (c.mapDurations .exported).validate.map fun _ => c.mapDurations .exported := by
  have hr : (ofConfig c).rateLimit = .ok (c.mapDurations .exported).rateLimit := by
    rw [rateLimit, ofConfig, Config.rateLimit_mapDurations]
    cases c.rateLimit <;> rfl
  have hc : (ofConfig c).withRateLimit (c.mapDurations .exported).rateLimit =
      c.mapDurations .exported := rfl
  unfold toConfig
  simp only [hr, hc]
  cases (c.mapDurations .exported).validate <;> rfl

/-- A valid configuration that is exported can be loaded if each of its durations is at least a
millisecond and fits, and cannot if one of them is shorter; what is loaded is the configuration to
the millisecond. -/
theorem toConfig_ofConfig (h : c.validate = .ok ()) :
    (∀ c', (ofConfig c).toConfig = .ok c' → c.ExportsTo c') ∧
    ((∀ d ∈ c.durations, 1 ≤ d.millis ∧ d.FitsMillis) → ∃ c', (ofConfig c).toConfig = .ok c') ∧
    ((∃ d ∈ c.durations, d.millis = 0) →
      ∃ f : Fault, ∃ d ∈ c.durations, (ofConfig c).toConfig = .error (.configuration f.message) ∧
        f.duration? c = some d ∧ (d.FitsMillis → d.millis = 0)) := by
  rw [toConfig_ofConfig_eq]
  -- what is read back is checked again, and nothing but a duration of zero can be found in it
  cases hf : (c.mapDurations .exported).fault? with
  | none =>
    have hvalid : (c.mapDurations .exported).validate = .ok () := by rw [Config.validate, hf]
    rw [hvalid]
    refine ⟨fun c' hc => ?_, fun _ => ⟨_, rfl⟩, fun ⟨d, hd, hz⟩ => ?_⟩
    · cases hc
      exact c.exportsTo_exported
    · obtain ⟨f, hf'⟩ := Config.exists_faulty_of_isZero hd
        (Duration.isZero_exported_iff.mpr (by rw [hz, Nat.zero_mod]))
      exact absurd hf' (Config.fault?_eq_none_iff.mp hf f)
  | some f =>
    have hrefused : (c.mapDurations .exported).validate = .error (.configuration f.message) := by
      rw [Config.validate, hf]
    obtain ⟨d, hd, hblame, hz⟩ := Config.exists_isZero_of_faulty h (Config.faulty_of_fault? hf)
    have hmod := Duration.isZero_exported_iff.mp hz
    have hshort : d.FitsMillis → d.millis = 0 := fun hfits => by
      rwa [Nat.mod_eq_of_lt hfits] at hmod
    rw [hrefused]
    refine ⟨fun c' hc => (by cases hc), fun hall => ?_, fun _ => ⟨f, d, hd, rfl, hblame, hshort⟩⟩
    obtain ⟨hpos, hfits⟩ := hall d hd
    have := hshort hfits
    omega

/-- A configuration whose durations are not all whole milliseconds. -/
def unevenConfig : Config :=
  { name := "orders"
    retryInterval := .ofNanos 250000500
    rateLimit := some ⟨.ofNanos 20900000, 2⟩ }

theorem toConfig_ofConfig_uneven : unevenConfig.validate = .ok () ∧
    ∃ c', (ofConfig unevenConfig).toConfig = .ok c' ∧ unevenConfig.ExportsTo c' ∧
      c'.retryInterval = .ofMillis 250 := by
  have hvalid : unevenConfig.validate = .ok () := rfl
  obtain ⟨hkept, hloaded, -⟩ := toConfig_ofConfig hvalid
  obtain ⟨c', hc⟩ := hloaded (by decide)
  have hretry : unevenConfig.retryInterval.RoundsTo c'.retryInterval :=
    (hkept c' hc).interval .retry (by decide)
  exact ⟨hvalid, c', hc, hkept c' hc, Duration.ext hretry.nanos_eq⟩

/-- Half a millisecond between two retries. -/
def briskConfig : Config := { retryInterval := .ofNanos 500000 }

/-- More milliseconds between two retries than 64 bits count. -/
def remoteConfig : Config := { retryInterval := .ofNanos 18446744073709551617000000 }

/-- Both are valid. The one is refused once it was exported, the other comes back as another. -/
theorem valid_not_exported :
    (briskConfig.validate = .ok () ∧ (ofConfig briskConfig).toConfig =
      .error (.configuration "retry_interval must be non-zero")) ∧
    (remoteConfig.validate = .ok () ∧
      (ofConfig remoteConfig).toConfig = .ok { retryInterval := .ofMillis 1 }) ∧
    ¬ ∀ c : Config, c.validate = .ok () → ∃ c', (ofConfig c).toConfig = .ok c' ∧
      ∀ i, (c.interval i).RoundsTo (c'.interval i) := by
  have hbrisk : briskConfig.validate = .ok () := rfl
  have hrefused : (ofConfig briskConfig).toConfig =
      .error (.configuration "retry_interval must be non-zero") := rfl
  refine ⟨⟨hbrisk, hrefused⟩, ⟨rfl, rfl⟩, fun hall => ?_⟩
  obtain ⟨c', hc, -⟩ := hall briskConfig hbrisk
  cases hrefused.symm.trans hc

end Settings

end DelayedQueue
