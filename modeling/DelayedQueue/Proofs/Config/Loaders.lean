import Mathlib.Data.List.Nodup
import DelayedQueue.Proofs.Config.Environment
import DelayedQueue.Proofs.Config.Guess
import DelayedQueue.Proofs.Config.Layers

/-! # Two kinds of variables

Seven settings can be given by plain variables, which are read one by one, or by variables of a
layer, whose texts are taken for values first. The same texts give the same configuration in both
ways exactly if being taken for a value changes neither the name nor a number.
-/

namespace DelayedQueue

open Config (Value IsName Flat Reads wordLimit halfWordLimit)

variable {e e' : Environment} {c : Config} {l : Layer} {raw? : Option String}

/-- The settings that both kinds of variables give. -/
inductive Shared where
  | name
  | retryInterval
  | retryTimes
  | workerCount
  | pollInterval
  | daemonInterval
  | consumeTimeout
  deriving DecidableEq, Repr

namespace Shared

def plain : Shared → String
  | .name => "DQ_QUEUE_NAME"
  | .retryInterval => "DQ_RETRY_INTERVAL_MS"
  | .retryTimes => "DQ_RETRY_TIMES"
  | .workerCount => "DQ_WORKER_COUNT"
  | .pollInterval => "DQ_POLL_INTERVAL_MS"
  | .daemonInterval => "DQ_DAEMON_INTERVAL_MS"
  | .consumeTimeout => "DQ_CONSUME_TIMEOUT_MS"

def layered : Shared → String
  | .name => "DQ__NAME"
  | .retryInterval => "DQ__RETRY_INTERVAL_MS"
  | .retryTimes => "DQ__RETRY_TIMES"
  | .workerCount => "DQ__WORKER_COUNT"
  | .pollInterval => "DQ__POLL_INTERVAL_MS"
  | .daemonInterval => "DQ__DAEMON_INTERVAL_MS"
  | .consumeTimeout => "DQ__CONSUME_TIMEOUT_MS"

def key : Shared → String
  | .name => "name"
  | .retryInterval => "retry_interval_ms"
  | .retryTimes => "retry_times"
  | .workerCount => "worker_count"
  | .pollInterval => "poll_interval_ms"
  | .daemonInterval => "daemon_interval_ms"
  | .consumeTimeout => "consume_timeout_ms"

/-- Whether a text that a plain variable takes stands for the same in a layer. -/
def Keeps : Shared → String → Prop
  | .name, raw => Value.TextKept raw
  | .retryTimes, _ => True
  | _, raw => Value.NumberKept raw

theorem key_injective : Function.Injective key := by
  intro s t h
  cases s <;> cases t <;> first | rfl | exact absurd h (by decide)

theorem plain_injective : Function.Injective plain := by
  intro s t h
  cases s <;> cases t <;> first | rfl | exact absurd h (by decide)

theorem isName_key (s : Shared) : IsName s.key := by
  cases s <;> exact List.all_eq_true.mp (by decide)

theorem variableEntry_layered (s : Shared) (raw : String) :
    Config.variableEntry (s.layered, raw) = some (s.key, .ofVariable raw) := by
  have hname : (Layer.lowerKey s.layered).toList = Config.variablePrefix ++ s.key.toList := by
    rw [Layer.lowerKey, String.toList_ofList]
    cases s <;> decide
  simp only [Config.variableEntry, hname, List.isPrefixOf_iff_prefix, List.prefix_append, if_true]
  exact congrArg (fun k => some (k, _)) (String.ofList_toList)

end Shared

namespace Environment

/-- These texts in plain variables. -/
def plain (given : List (Shared × String)) : Environment := given.map fun g => (g.1.plain, g.2)

/-- These texts in variables of a layer. -/
def layered (given : List (Shared × String)) : Environment :=
  given.map fun g => (g.1.layered, g.2)

end Environment

/-- The variables of the layer are the plain ones that both kinds have, under their other names. -/
def Mirrors (e e' : Environment) : Prop :=
  ∀ name raw, ((name, raw) ∈ e' ∧ Config.variableEntry (name, raw) ≠ none) ↔
    ∃ s : Shared, name = s.layered ∧ e.get? s.plain = some raw

theorem mirrors_plain_layered (given : List (Shared × String)) (h : (given.map Prod.fst).Nodup) :
    Mirrors (.plain given) (.layered given) := by
  have hmem {s : Shared} {raw : String} : (s.plain, raw) ∈ Environment.plain given ↔
      (s, raw) ∈ given := by
    constructor
    · intro hm
      obtain ⟨⟨t, raw⟩, hg, he⟩ := List.mem_map.mp hm
      obtain ⟨hplain, rfl⟩ := Prod.mk.inj he
      rwa [← Shared.plain_injective hplain]
    · exact fun hg => List.mem_map.mpr ⟨_, hg, rfl⟩
  have hget {s : Shared} {raw : String} :
      (Environment.plain given).get? s.plain = some raw ↔ (s, raw) ∈ given := by
    rw [Environment.get?, Config.lookup_eq_some_iff_mem, hmem]
    intro v w hv hw
    exact (Prod.mk.inj (List.inj_on_of_nodup_map h (hmem.mp hv) (hmem.mp hw) rfl)).2
  intro name raw
  simp only [hget]
  constructor
  · rintro ⟨hm, -⟩
    obtain ⟨⟨s, raw⟩, hg, hs⟩ := List.mem_map.mp hm
    cases hs
    exact ⟨s, rfl, hg⟩
  · rintro ⟨s, rfl, hg⟩
    refine ⟨List.mem_map.mpr ⟨(s, raw), hg, rfl⟩, ?_⟩
    rw [s.variableEntry_layered]
    simp

namespace Mirrors

theorem mem_entries_iff (h : Mirrors e e') {key : String} {v : Value} :
    (key, v) ∈ e'.filterMap Config.variableEntry ↔
      ∃ s : Shared, ∃ raw, e.get? s.plain = some raw ∧ s.key = key ∧ .ofVariable raw = v := by
  rw [List.mem_filterMap]
  constructor
  · rintro ⟨⟨name, raw⟩, hm, hv⟩
    obtain ⟨s, rfl, hraw⟩ := (h name raw).mp ⟨hm, by simp [hv]⟩
    rw [Shared.variableEntry_layered] at hv
    cases hv
    exact ⟨s, raw, hraw, rfl, rfl⟩
  · rintro ⟨s, raw, hraw, rfl, rfl⟩
    exact ⟨_, ((h s.layered raw).mpr ⟨s, rfl, hraw⟩).1, s.variableEntry_layered raw⟩

/-- The layer holds the values of the shared settings and nothing else. -/
theorem exists_layer (h : Mirrors e e') : ∃ l, Settings.layer [] e' = .ok l ∧
    (∀ s : Shared, l.get? s.key = (e.get? s.plain).map .ofVariable) ∧
    ∀ {key}, (∀ s : Shared, s.key ≠ key) → l.get? key = none := by
  have hflat : Flat (e'.filterMap Config.variableEntry) := by
    rintro ⟨key, v⟩ hm
    obtain ⟨s, raw, -, rfl, rfl⟩ := h.mem_entries_iff.mp hm
    exact ⟨s.isName_key, Value.isPlain_ofVariable⟩
  obtain ⟨l, hl, hget⟩ := Layer.putAll_of_flat (l := []) hflat
  have hiff {key v} : l.get? key = some v ↔
      ∃ s : Shared, ∃ raw, e.get? s.plain = some raw ∧ s.key = key ∧ .ofVariable raw = v := by
    rw [← h.mem_entries_iff, hget, Layer.get?, List.lookup_nil, Option.or_none,
      Config.lookup_eq_some_iff_mem, List.mem_reverse]
    intro v w hv hw
    obtain ⟨s, raw, hraw, hs, rfl⟩ := h.mem_entries_iff.mp (List.mem_reverse.mp hv)
    obtain ⟨t, raw', hraw', ht, rfl⟩ := h.mem_entries_iff.mp (List.mem_reverse.mp hw)
    cases Shared.key_injective (hs.trans ht.symm)
    rw [Option.some.inj (hraw.symm.trans hraw')]
  refine ⟨l, by rw [Settings.layer, List.nil_append, hl], fun s => ?_, fun hk => ?_⟩
  · ext v
    rw [hiff, Option.map_eq_some_iff]
    constructor
    · rintro ⟨t, raw, hraw, ht, hv⟩
      cases Shared.key_injective ht
      exact ⟨raw, hraw, hv⟩
    · rintro ⟨raw, hraw, hv⟩
      exact ⟨s, raw, hraw, rfl, hv⟩
  · rw [Option.eq_none_iff_forall_ne_some]
    intro v hv
    obtain ⟨s, -, -, hs, -⟩ := hiff.mp hv
    exact hk s hs

end Mirrors

section Fields

variable {α : Type} {key : String}

theorem exists_text (old : String) {name : String} (hl : l.get? key = raw?.map .ofVariable)
    (hname : name = raw?.getD old) :
    ∃ t, Settings.field l key Settings.text old = .ok t ∧
      (t = name ↔ ∀ raw, raw? = some raw → Value.TextKept raw) := by
  cases raw? with
  | none => exact ⟨old, Settings.field_eq_ok_iff.mpr (.inl ⟨hl, rfl⟩), by simp [hname]⟩
  | some raw =>
    obtain ⟨t, ht⟩ := Value.exists_toText_ofVariable (s := raw)
    have htext : Settings.text (.ofVariable raw) = .ok t := by
      rw [Settings.text, ht]
      rfl
    refine ⟨t, Settings.field_eq_ok_iff.mpr (.inr ⟨_, hl, htext⟩), ?_⟩
    rw [Option.getD_some] at hname
    simp only [hname, Option.some.injEq, forall_eq', ← Value.toText_ofVariable_eq_ok_iff, ht,
      Except.ok.injEq]

theorem exists_word {make : UInt64 → α} {old : UInt64} {a : α} (hmake : make.Injective)
    (hl : l.get? key = raw?.map .ofVariable)
    (hr : Reads wordLimit (fun n => make (.ofNat n)) (make old) raw? a) :
    ∃ w, Settings.field l key Settings.word old = .ok w ∧
      (make w = a ↔ ∀ raw, raw? = some raw → Value.NumberKept raw) := by
  cases hr with
  | absent => exact ⟨old, Settings.field_eq_ok_iff.mpr (.inl ⟨hl, rfl⟩), by simp⟩
  | @number raw n hs hle =>
    refine ⟨Value.wordOf n, Settings.field_eq_ok_iff.mpr (.inr ⟨_, hl, ?_⟩), ?_⟩
    · rw [Settings.word, Value.toWord_ofVariable hs]
      rfl
    · have hn : (UInt64.ofNat n).toNat = n :=
        UInt64.toNat_ofNat_of_lt' (Nat.lt_of_le_of_lt hle (by decide))
      simp only [Option.some.injEq, forall_eq', ← Value.toNat_wordOf_eq_iff hs, hmake.eq_iff]
      rw [← UInt64.toNat_inj, hn]

theorem exists_interval (old : UInt64) {d : Duration} (hl : l.get? key = raw?.map .ofVariable)
    (hr : Reads wordLimit (.ofMillis <| .ofNat ·) (.ofMillis old) raw? d) :
    ∃ w, Settings.field l key Settings.word old = .ok w ∧
      (.ofMillis w = d ↔ ∀ raw, raw? = some raw → Value.NumberKept raw) :=
  exists_word (fun _ _ => Duration.ofMillis_injective) hl hr

theorem exists_count (old : UInt64) {a : UInt64} (hl : l.get? key = raw?.map .ofVariable)
    (hr : Reads wordLimit .ofNat old raw? a) :
    ∃ w, Settings.field l key Settings.word old = .ok w ∧
      (w = a ↔ ∀ raw, raw? = some raw → Value.NumberKept raw) :=
  exists_word Function.injective_id hl hr

theorem field_halfWord (old : UInt32) {a : UInt32} (hl : l.get? key = raw?.map .ofVariable)
    (hr : Reads halfWordLimit .ofNat old raw? a) :
    Settings.field l key Value.toHalfWord old = .ok a := by
  rw [Settings.field_eq_ok_iff]
  cases hr with
  | absent => exact .inl ⟨hl, rfl⟩
  | number hs hle =>
    exact .inr ⟨_, hl, Value.toHalfWord_ofVariable hs (Nat.lt_of_le_pred (by decide) hle)⟩

end Fields

namespace Settings

variable {st : Settings}

theorem toConfig_eq_ok_iff : st.toConfig = .ok c ↔
    ∃ r, st.rateLimit = .ok r ∧ st.withRateLimit r = c ∧ c.validate = .ok () := by
  unfold toConfig
  cases st.rateLimit with
  | error f => simp
  | ok r =>
    simp only [Except.ok.injEq, exists_eq_left']
    cases h : (st.withRateLimit r).validate with
    | error f =>
      simp only [reduceCtorEq, false_iff, not_and]
      rintro rfl
      simp [h]
    | ok u =>
      simp only [Except.ok.injEq]
      exact ⟨fun hc => ⟨hc, hc ▸ h⟩, And.left⟩

theorem withRateLimit_eq_iff {r : Option RateLimit} : st.withRateLimit r = c ↔
    st.name = c.name ∧ .ofMillis st.retryIntervalMs = c.retryInterval ∧
      st.retryTimes = c.retryTimes ∧ st.workerCount = c.workerCount ∧
      .ofMillis st.pollIntervalMs = c.pollInterval ∧
      .ofMillis st.daemonIntervalMs = c.daemonInterval ∧
      .ofMillis st.consumeTimeoutMs = c.consumeTimeout ∧
      st.promoteBatchSize = c.promoteBatchSize ∧ r = c.rateLimit := by
  cases c
  rw [withRateLimit, Config.mk.injEq]

/-- What plain variables make a configuration of, the variables of a layer always give settings
for, and these give the same configuration exactly if every text stands for the same in a layer. -/
theorem loaders_agree_iff (hc : Config.ofEnvironment e = .ok c) (hm : Mirrors e e') :
    ∃ st, load none e' = .ok st ∧
      (st.toConfig = .ok c ↔ ∀ s : Shared, ∀ raw, e.get? s.plain = some raw → s.Keeps raw) := by
  obtain ⟨hs, hvalid⟩ := Config.sets_of_ofEnvironment hc
  obtain ⟨l, hlayer, hl, hrest⟩ := hm.exists_layer
  obtain ⟨name, hname, kname⟩ := exists_text default.name (hl .name) hs.name
  obtain ⟨retry, hretry, kretry⟩ :=
    exists_interval default.retryIntervalMs (hl .retryInterval) hs.retryInterval
  have htimes := field_halfWord default.retryTimes (hl .retryTimes) hs.retryTimes
  obtain ⟨count, hcount, kcount⟩ :=
    exists_count default.workerCount (hl .workerCount) hs.workerCount
  obtain ⟨poll, hpoll, kpoll⟩ :=
    exists_interval default.pollIntervalMs (hl .pollInterval) hs.pollInterval
  obtain ⟨daemon, hdaemon, kdaemon⟩ :=
    exists_interval default.daemonIntervalMs (hl .daemonInterval) hs.daemonInterval
  obtain ⟨consume, hconsume, kconsume⟩ :=
    exists_interval default.consumeTimeoutMs (hl .consumeTimeout) hs.consumeTimeout
  -- what no shared setting gives keeps its default
  have hdefault {α : Type} {convert : Value → Except String α} {key : String} {old : α}
      (hk : ∀ s : Shared, s.key ≠ key) : field l key convert old = .ok old :=
    field_eq_ok_iff.mpr (.inl ⟨hrest hk, rfl⟩)
  let st : Settings := ⟨name, retry, c.retryTimes, count, poll, daemon, consume,
    default.promoteBatchSize, default.rateLimitIntervalMs, default.rateLimitBurst⟩
  have hof : ofLayer l = .ok st := ofLayer_eq_ok_iff.mpr
    ⟨hname, hretry, htimes, hcount, hpoll, hdaemon, hconsume,
      hdefault (by rintro (- | -) <;> decide), hdefault (by rintro (- | -) <;> decide),
      hdefault (by rintro (- | -) <;> decide)⟩
  have hload : load none e' = .ok st := load_none_eq_ok_iff.mpr ⟨l, hlayer, hof⟩
  have hconfig : st.toConfig = .ok c ↔ st.withRateLimit none = c := by
    rw [toConfig_eq_ok_iff]
    exact ⟨fun ⟨r, hr, h, _⟩ => by cases hr; exact h, fun h => ⟨none, rfl, h, hvalid⟩⟩
  refine ⟨st, hload, ?_⟩
  rw [hconfig, withRateLimit_eq_iff]
  constructor
  · rintro ⟨hname, hretry, -, hcount, hpoll, hdaemon, hconsume, -, -⟩ s
    cases s with
    | name => exact kname.mp hname
    | retryInterval => exact kretry.mp hretry
    | retryTimes => exact fun _ _ => trivial
    | workerCount => exact kcount.mp hcount
    | pollInterval => exact kpoll.mp hpoll
    | daemonInterval => exact kdaemon.mp hdaemon
    | consumeTimeout => exact kconsume.mp hconsume
  · intro h
    exact ⟨kname.mpr (h .name), kretry.mpr (h .retryInterval), rfl, kcount.mpr (h .workerCount),
      kpoll.mpr (h .pollInterval), kdaemon.mpr (h .daemonInterval),
      kconsume.mpr (h .consumeTimeout), hs.promoteBatchSize.symm, hs.rateLimit.symm⟩

/-- Texts of which each stands for the same in both kinds. -/
def steadyTexts : List (Shared × String) :=
  [(.name, "orders 7"), (.retryInterval, "0250"), (.workerCount, "+4")]

def steadyConfig : Config :=
  { name := "orders 7", retryInterval := .ofMillis 250, workerCount := 4 }

theorem loaders_agree_steadyTexts :
    Config.ofEnvironment (.plain steadyTexts) = .ok steadyConfig ∧
    Mirrors (.plain steadyTexts) (.layered steadyTexts) ∧
    ∃ st, load none (.layered steadyTexts) = .ok st ∧ st.toConfig = .ok steadyConfig := by
  have hc : Config.ofEnvironment (.plain steadyTexts) = .ok steadyConfig := by decide +kernel
  have hm := mirrors_plain_layered steadyTexts (by decide)
  obtain ⟨st, hload, hst⟩ := loaders_agree_iff hc hm
  refine ⟨hc, hm, st, hload, hst.mpr fun s raw hraw => ?_⟩
  simp only [Environment.plain, steadyTexts, List.map_cons, Environment.get?] at hraw
  cases s with
  | name =>
    cases hraw
    exact Value.textKept_of_mem (c := 'o') (by decide) (by unfold Real.IsNumberChar; decide)
      (by decide)
  | retryInterval =>
    cases hraw
    exact Value.numberKept_of_parseUnsigned (n := 250) rfl
  | workerCount =>
    cases hraw
    exact Value.numberKept_of_parseUnsigned (n := 4) rfl
  | retryTimes => trivial
  | _ => cases hraw

/-- A name of digits stands for a number in a layer, and its zeros are lost. -/
theorem loaders_disagree_digits :
    Mirrors [("DQ_QUEUE_NAME", "007")] [("DQ__NAME", "007")] ∧
    Config.ofEnvironment [("DQ_QUEUE_NAME", "007")] = .ok { name := "007" } ∧
    ∃ st, load none [("DQ__NAME", "007")] = .ok st ∧ st.toConfig = .ok { name := "7" } := by
  have hword : Value.ofVariable "007" = .integer 7 :=
    Value.ofVariable_eq_iff.mpr (.integer (Value.parseSigned_eq_ok_iff.mp rfl))
  have hlayer : layer [] [("DQ__NAME", "007")] = .ok [("name", .integer 7)] := by
    have hentry : Config.variableEntry ("DQ__NAME", "007") = some ("name", .integer 7) :=
      hword ▸ Shared.name.variableEntry_layered "007"
    rw [layer, List.filterMap_cons_some hentry]
    rfl
  have hof : ofLayer [("name", .integer 7)] = .ok { default with name := "7" } :=
    ofLayer_eq_ok_iff.mpr ⟨rfl, rfl, rfl, rfl, rfl, rfl, rfl, rfl, rfl, rfl⟩
  exact ⟨mirrors_plain_layered [(.name, "007")] (by decide), by decide +kernel, _,
    load_none_eq_ok_iff.mpr ⟨_, hlayer, hof⟩, by decide +kernel⟩

end Settings

end DelayedQueue
