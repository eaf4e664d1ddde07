import DelayedQueue.Proofs.Config.Sources

/-! # Settings one by one

Each setting has a key, a kind of value and a conversion into it. What the settings are is told for
each of them by its own source alone.
-/

namespace DelayedQueue.Settings

open Config (Value FileFormat FlatSources source variableValue fileValue)

variable {entries entries' : List (String × Value)} {env env' : Environment}
  {file file' : Option (FileFormat × String)} {l : Layer} {s s' : Settings}

inductive Field where
  | name
  | retryInterval
  | retryTimes
  | workerCount
  | pollInterval
  | daemonInterval
  | consumeTimeout
  | promoteBatchSize
  | rateLimitInterval
  | rateLimitBurst
  deriving DecidableEq, Repr

namespace Field

def Kind : Field → Type
  | .name => String
  | .retryTimes => UInt32
  | .rateLimitInterval => Option UInt64
  | .rateLimitBurst => Option UInt32
  | _ => UInt64

def key : Field → String
  | .name => "name"
  | .retryInterval => "retry_interval_ms"
  | .retryTimes => "retry_times"
  | .workerCount => "worker_count"
  | .pollInterval => "poll_interval_ms"
  | .daemonInterval => "daemon_interval_ms"
  | .consumeTimeout => "consume_timeout_ms"
  | .promoteBatchSize => "promote_batch_size"
  | .rateLimitInterval => "rate_limit_interval_ms"
  | .rateLimitBurst => "rate_limit_burst"

def convert : (f : Field) → Value → Except String f.Kind
  | .name => text
  | .retryInterval => word
  | .retryTimes => Value.toHalfWord
  | .workerCount => word
  | .pollInterval => word
  | .daemonInterval => word
  | .consumeTimeout => word
  | .promoteBatchSize => word
  | .rateLimitInterval => optional word
  | .rateLimitBurst => optional Value.toHalfWord

def get (s : Settings) : (f : Field) → f.Kind
  | .name => s.name
  | .retryInterval => s.retryIntervalMs
  | .retryTimes => s.retryTimes
  | .workerCount => s.workerCount
  | .pollInterval => s.pollIntervalMs
  | .daemonInterval => s.daemonIntervalMs
  | .consumeTimeout => s.consumeTimeoutMs
  | .promoteBatchSize => s.promoteBatchSize
  | .rateLimitInterval => s.rateLimitIntervalMs
  | .rateLimitBurst => s.rateLimitBurst

/-- The settings that have these values. -/
def settings (a : (f : Field) → f.Kind) : Settings :=
  ⟨a .name, a .retryInterval, a .retryTimes, a .workerCount, a .pollInterval, a .daemonInterval,
    a .consumeTimeout, a .promoteBatchSize, a .rateLimitInterval, a .rateLimitBurst⟩

theorem get_settings (a : (f : Field) → f.Kind) (f : Field) : f.get (settings a) = a f := by
  cases f <;> rfl

/-- What a setting is that has this for a source. -/
def Takes (f : Field) : Option Value → f.Kind → Prop
  | none, a => a = f.get (ofConfig {})
  | some v, a => f.convert v = .ok a

theorem exists_takes_iff {f : Field} {v? : Option Value} :
    (∃ a, f.Takes v? a) ↔ ∀ v, v? = some v → ∃ a, f.convert v = .ok a := by
  cases v? with
  | none => exact ⟨fun _ => nofun, fun _ => ⟨_, rfl⟩⟩
  | some v => simp only [Option.some.injEq, forall_eq', Takes]

theorem Takes.eq {f : Field} {v? : Option Value} {a b : f.Kind} (ha : f.Takes v? a)
    (hb : f.Takes v? b) : a = b := by
  cases v? with
  | none => exact Eq.trans ha (Eq.symm hb)
  | some v => exact Except.ok.inj (Eq.trans (Eq.symm ha) hb)

theorem field_eq_ok_iff_takes {f : Field} {a : f.Kind} :
    field l f.key f.convert (f.get default) = .ok a ↔ f.Takes (l.get? f.key) a := by
  rw [field_eq_ok_iff]
  cases l.get? f.key with
  | none => simp [Takes, eq_comm, default]
  | some v => simp [Takes]

end Field

theorem ofLayer_eq_ok_iff_takes :
    ofLayer l = .ok s ↔ ∀ f : Field, f.Takes (l.get? f.key) (f.get s) := by
  rw [ofLayer_eq_ok_iff]
  simp only [← Field.field_eq_ok_iff_takes]
  constructor
  · rintro ⟨h₁, h₂, h₃, h₄, h₅, h₆, h₇, h₈, h₉, h₁₀⟩ f
    cases f <;> assumption
  · intro h
    exact ⟨h .name, h .retryInterval, h .retryTimes, h .workerCount, h .pollInterval,
      h .daemonInterval, h .consumeTimeout, h .promoteBatchSize, h .rateLimitInterval,
      h .rateLimitBurst⟩

theorem load_eq_ok_iff_takes (h : FlatSources file entries env) :
    load file env = .ok s ↔ ∀ f : Field, f.Takes (source entries env f.key) (f.get s) := by
  obtain ⟨l, hl, hget⟩ := h.exists_layer
  rw [h.load_eq_ok_iff, hl]
  simp only [Except.ok.injEq, exists_eq_left', ofLayer_eq_ok_iff_takes, hget]

/-- The settings of a flat file and variables over it. There are some if and only if the source of
each setting, where it has one, can be converted, and each setting is then what its source is
converted to, or the default without one. So one that has the same source elsewhere is the same
there, whatever the others are and whatever lies under other keys; and what a file has under the
key of a variable is never looked at. -/
theorem load_fieldwise (h : FlatSources file entries env) :
    ((∃ s, load file env = .ok s) ↔ ∀ (f : Field) (v : Value),
      source entries env f.key = some v → ∃ a, f.convert v = .ok a) ∧
    (∀ s, load file env = .ok s ↔ ∀ f : Field, f.Takes (source entries env f.key) (f.get s)) ∧
    ∀ file' entries' env', FlatSources file' entries' env' →
      (∀ (f : Field) (s s' : Settings), load file env = .ok s → load file' env' = .ok s' →
        source entries' env' f.key = source entries env f.key → f.get s' = f.get s) ∧
      ((∀ f : Field, source entries' env' f.key = source entries env f.key) →
        ∀ s, load file' env' = .ok s ↔ load file env = .ok s) ∧
      (env' = env → (∀ f : Field, variableValue env f.key = none →
          fileValue entries' f.key = fileValue entries f.key) →
        ∀ s, load file' env' = .ok s ↔ load file env = .ok s) := by
  refine ⟨?_, fun s => load_eq_ok_iff_takes h, fun file' entries' env' h' => ?_⟩
  · simp only [load_eq_ok_iff_takes h, ← Field.exists_takes_iff]
    constructor
    · rintro ⟨s, hs⟩ f
      exact ⟨f.get s, hs f⟩
    · intro hf
      choose a ha using hf
      exact ⟨Field.settings a, fun f => (Field.get_settings a f).symm ▸ ha f⟩
  have hsame (hsource : ∀ f : Field, source entries' env' f.key = source entries env f.key)
      (s : Settings) : load file' env' = .ok s ↔ load file env = .ok s := by
    simp only [load_eq_ok_iff_takes h, load_eq_ok_iff_takes h', hsource]
  refine ⟨fun f s s' hs hs' hsource => ?_, hsame, fun henv hfile => hsame fun f => ?_⟩
  · have ha := (load_eq_ok_iff_takes h).mp hs f
    have ha' := (load_eq_ok_iff_takes h').mp hs' f
    exact (hsource ▸ ha').eq ha
  · subst henv
    cases hv : variableValue env' f.key with
    | none => rw [source, source, hfile f hv]
    | some v => rw [source, source, hv, Option.some_or, Option.some_or]

/-- A file that spells a key in its own way and has a text where a number is due. -/
def loosePage : String := "Name = \"orders\"\nworker_count = \"many\"\nunknown = 1\n"

def looseEntries : List (String × Value) :=
  [("unknown", .integer 1), ("worker_count", .text "many"), ("Name", .text "orders")]

/-- One of the variables lies over the text. -/
def looseVariables : Environment := [("DQ__Worker_Count", "4"), ("LANG", "C")]

theorem flatSources_loose :
    FlatSources (some (.toml, loosePage)) looseEntries looseVariables := by
  have hread : Toml.read? loosePage.toList = some [("unknown", .scalar (.integer 1)),
      ("worker_count", .scalar (.text "many")), ("Name", .scalar (.text "orders"))] := by
    unfold loosePage
    cbv
  refine ⟨.toml hread, ?_, by decide, by unfold Config.Undivided; decide, by decide⟩
  intro e he
  simp only [looseEntries, List.mem_cons, List.not_mem_nil, or_false] at he
  rcases he with rfl | rfl | rfl <;> exact ⟨by unfold Config.Undivided; decide, trivial⟩

theorem variableValue_loose (f : Field) : variableValue looseVariables f.key =
    if f = .workerCount then some (.integer 4) else none := by
  have hfind : looseVariables.find? (fun v => Layer.lowerKey v.1 == "dq__" ++ f.key) =
      if f = .workerCount then some ("DQ__Worker_Count", "4") else none := by
    cases f <;> decide +kernel
  have hfour : Value.ofVariable "4" = .integer 4 :=
    Value.ofVariable_eq_iff.mpr (.integer (Value.parseSigned_eq_ok_iff.mp rfl))
  rw [variableValue, hfind]
  split
  · rw [Option.map_some, hfour]
  · rw [Option.map_none]

theorem fileValue_loose (f : Field) : fileValue looseEntries f.key =
    if f = .name then some (.text "orders")
    else if f = .workerCount then some (.text "many") else none := by
  have hfind : looseEntries.find? (fun e => Layer.lowerKey e.1 == f.key) =
      if f = .name then some ("Name", .text "orders")
      else if f = .workerCount then some ("worker_count", .text "many") else none := by
    have hkeys : Layer.lowerKey "unknown" = "unknown" ∧
        Layer.lowerKey "worker_count" = "worker_count" ∧ Layer.lowerKey "Name" = "name" := by
      decide
    simp only [looseEntries, List.find?_cons, hkeys]
    cases f <;> rfl
  rw [fileValue, hfind]
  split_ifs <;> rfl

theorem load_fieldwise_loose :
    FlatSources (some (.toml, loosePage)) looseEntries looseVariables ∧
    ∃ s, load (some (.toml, loosePage)) looseVariables = .ok s ∧
      s.name = "orders" ∧ s.workerCount = 4 ∧ s.retryTimes = 3 := by
  have hsource (f : Field) : source looseEntries looseVariables f.key =
      if f = .name then some (.text "orders")
      else if f = .workerCount then some (.integer 4) else none := by
    rw [source, variableValue_loose, fileValue_loose]
    cases f <;> rfl
  obtain ⟨hload, htakes, -⟩ := load_fieldwise flatSources_loose
  obtain ⟨s, hs⟩ := hload.mpr fun f v hv => by
    rw [hsource] at hv
    split_ifs at hv with hname hcount
    · cases hv
      exact hname ▸ ⟨"orders", rfl⟩
    · cases hv
      exact hcount ▸ ⟨(4 : UInt64), rfl⟩
  have hname := (htakes s).mp hs .name
  have hcount := (htakes s).mp hs .workerCount
  have htimes := (htakes s).mp hs .retryTimes
  rw [hsource] at hname hcount htimes
  exact ⟨flatSources_loose, s, hs, (Except.ok.inj hname).symm, (Except.ok.inj hcount).symm, htimes⟩

end DelayedQueue.Settings
