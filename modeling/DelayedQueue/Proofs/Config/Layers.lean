import Mathlib.Data.List.TakeWhile
import DelayedQueue.Config.Layers

/-! # What a layer holds

An entry whose key is a plain name and whose value is no map takes the place of what is there under
its key. Of several such entries under one key the last one counts, and other keys keep what they
have.
-/

namespace DelayedQueue

open Config (Value Members)

variable {key : String} {v : Value}

namespace Config

/-- All but maps replace what they come to lie over. -/
def Value.IsPlain : Value → Prop
  | .map _ => False
  | _ => True

theorem Value.merge_of_isPlain {old : Option Value} (h : v.IsPlain) : Value.merge old v = v := by
  cases v with
  | map => exact h.elim
  | _ => simp only [Value.merge]

theorem lookup_cons_eq_ite {α : Type} {e : String × α} {entries : List (String × α)} {k : String} :
    (e :: entries).lookup k = if k = e.1 then some e.2 else entries.lookup k := by
  rw [List.lookup_cons]
  split
  · next h => rw [if_pos (beq_iff_eq.mp h)]
  · next h => rw [if_neg (beq_eq_false_iff_ne.mp h)]

theorem lookup_eq_some_iff_mem {α : Type} {entries : List (String × α)} {v : α}
    (h : ∀ v w, (key, v) ∈ entries → (key, w) ∈ entries → v = w) :
    entries.lookup key = some v ↔ (key, v) ∈ entries := by
  have hmem {w : α} (hw : entries.lookup key = some w) : (key, w) ∈ entries := by
    obtain ⟨before, behind, rfl, -⟩ := List.lookup_eq_some_iff.mp hw
    exact List.mem_append_right before List.mem_cons_self
  constructor
  · exact hmem
  · intro hv
    cases hl : entries.lookup key with
    | none => simpa using List.lookup_eq_none_iff.mp hl _ hv
    | some w => rw [h v w hv (hmem hl)]

@[simp] theorem Members.lookup_put {ms : Members} {k : String} :
    (ms.put key v).lookup k = if k = key then some v else ms.lookup k := by
  induction ms with
  | nil => exact lookup_cons_eq_ite
  | cons m ms ih =>
    rw [put]
    split
    · next hm =>
      subst hm
      simp only [lookup_cons_eq_ite]
      split <;> rfl
    · next hm =>
      simp only [lookup_cons_eq_ite, ih]
      by_cases h : k = m.1
      · subst h
        simp [hm]
      · simp [h]

/-- Nothing in the key leads into a container: it asks for no member and no element. -/
def Undivided (key : String) : Prop := '.' ∉ key.toList ∧ '[' ∉ key.toList

theorem Undivided.parse?_cases (h : Undivided key) :
    Path.parse? key = none ∨ Path.parse? key = some ⟨key, []⟩ := by
  obtain ⟨hpoint, hbracket⟩ := h
  simp only [Path.parse?]
  split
  · exact .inl rfl
  cases hrest : key.toList.dropWhile Path.isNameChar with
  | nil =>
    have htake : key.toList.takeWhile Path.isNameChar = key.toList :=
      List.takeWhile_eq_self_iff.mpr (List.dropWhile_eq_nil_iff.mp hrest)
    exact .inr (by simp only [htake, String.ofList_toList, Path.steps?, Option.map_some])
  | cons c cs =>
    have hc : c ∈ key.toList :=
      (List.dropWhile_suffix Path.isNameChar).subset (hrest ▸ List.mem_cons_self)
    have hsteps : Path.steps? ((c :: cs).length + 1) (c :: cs) = none := by
      rw [Path.steps?.eq_def]
      split <;> simp_all
    exact .inl (by rw [hsteps, Option.map_none])

/-- Letters, digits and what may stand between them. -/
def IsName (key : String) : Prop := ∀ c ∈ key.toList, Path.isNameChar c = true

theorem IsName.undivided (h : IsName key) : Undivided key :=
  ⟨fun hc => absurd (h _ hc) (by decide), fun hc => absurd (h _ hc) (by decide)⟩

/-- Entries that lead into no container. -/
def Flat (entries : List (String × Value)) : Prop := ∀ e ∈ entries, IsName e.1 ∧ e.2.IsPlain

end Config

open Config (IsName Flat Undivided)

namespace Layer

variable {l : Layer} {entries : List (String × Value)}

theorem put_of_undivided (hk : Undivided key) (hv : v.IsPlain) :
    l.put key v = .ok (Members.put l key v) := by
  rw [put]
  rcases hk.parse?_cases with h | h
  · simp only [h, Value.merge_of_isPlain hv]
  · simp only [h, Config.Path.fill, Value.merge_of_isPlain hv]
    rfl

/-- The last entry under a key counts, and without one the key keeps its value. -/
theorem putAll_of_undivided (h : ∀ e ∈ entries, Undivided e.1 ∧ e.2.IsPlain) :
    ∃ l', l.putAll entries = .ok l' ∧
      ∀ k, l'.get? k = (entries.reverse.lookup k).or (l.get? k) := by
  induction entries generalizing l with
  | nil => exact ⟨l, rfl, fun k => rfl⟩
  | cons e entries ih =>
    have he := h e List.mem_cons_self
    obtain ⟨l', hl, hget⟩ := ih (l := Members.put l e.1 e.2) fun e' hm =>
      h e' (List.mem_cons_of_mem _ hm)
    refine ⟨l', ?_, fun k => ?_⟩
    · rw [putAll, List.foldlM_cons, put_of_undivided he.1 he.2]
      exact hl
    · rw [hget, List.reverse_cons, List.lookup_append, Option.or_assoc]
      congr 1
      rw [get?, Members.lookup_put, Config.lookup_cons_eq_ite, List.lookup_nil]
      by_cases hk : k = e.1 <;> simp [hk, get?]

theorem putAll_of_flat (h : Flat entries) : ∃ l', l.putAll entries = .ok l' ∧
    ∀ k, l'.get? k = (entries.reverse.lookup k).or (l.get? k) :=
  putAll_of_undivided fun e he => ⟨(h e he).1.undivided, (h e he).2⟩

end Layer

namespace Settings

open Config (LoadFault)

variable {l : Layer} {s : Settings}

theorem field_eq_ok_iff {α : Type} {convert : Value → Except String α} {old a : α} :
    field l key convert old = .ok a ↔
      (l.get? key = none ∧ old = a) ∨ ∃ v, l.get? key = some v ∧ convert v = .ok a := by
  rw [field]
  split
  · next hn => simp [hn]
  · next v hv =>
    split <;> simp_all

theorem bind_eq_ok_iff {α β : Type} {x : Except LoadFault α} {f : α → Except LoadFault β} {b : β} :
    x >>= f = .ok b ↔ ∃ a, x = .ok a ∧ f a = .ok b := by
  cases x <;> simp [bind, Except.bind]

theorem ofLayer_eq_ok_iff : ofLayer l = .ok s ↔
    field l "name" text default.name = .ok s.name ∧
    field l "retry_interval_ms" word default.retryIntervalMs = .ok s.retryIntervalMs ∧
    field l "retry_times" Value.toHalfWord default.retryTimes = .ok s.retryTimes ∧
    field l "worker_count" word default.workerCount = .ok s.workerCount ∧
    field l "poll_interval_ms" word default.pollIntervalMs = .ok s.pollIntervalMs ∧
    field l "daemon_interval_ms" word default.daemonIntervalMs = .ok s.daemonIntervalMs ∧
    field l "consume_timeout_ms" word default.consumeTimeoutMs = .ok s.consumeTimeoutMs ∧
    field l "promote_batch_size" word default.promoteBatchSize = .ok s.promoteBatchSize ∧
    field l "rate_limit_interval_ms" (optional word) default.rateLimitIntervalMs =
      .ok s.rateLimitIntervalMs ∧
    field l "rate_limit_burst" (optional Value.toHalfWord) default.rateLimitBurst =
      .ok s.rateLimitBurst := by
  simp only [ofLayer, bind_eq_ok_iff]
  constructor
  · rintro ⟨_, h₁, _, h₂, _, h₃, _, h₄, _, h₅, _, h₆, _, h₇, _, h₈, _, h₉, _, h₁₀, hs⟩
    cases hs
    exact ⟨h₁, h₂, h₃, h₄, h₅, h₆, h₇, h₈, h₉, h₁₀⟩
  · rintro ⟨h₁, h₂, h₃, h₄, h₅, h₆, h₇, h₈, h₉, h₁₀⟩
    exact ⟨_, h₁, _, h₂, _, h₃, _, h₄, _, h₅, _, h₆, _, h₇, _, h₈, _, h₉, _, h₁₀, rfl⟩

theorem load_none_eq_ok_iff {e : Environment} :
    load none e = .ok s ↔ ∃ l, layer [] e = .ok l ∧ ofLayer l = .ok s := by
  simp only [load, bind_eq_ok_iff, Except.ok.injEq, exists_eq_left']

end Settings

end DelayedQueue
