import DelayedQueue.Proofs.Store.Deliveries

/-! # The ledger of a queue

A space seen together with what has happened to its messages: which have been produced, how
often each was handed out, and which may be committed. No operation that keeps to this loses
a message before it is finished with.
-/

namespace DelayedQueue.Space

variable {s : Space} {x : String} {op : StoreOp} {m : Message}

/-- A row goes away by a commit, by a purge, or in a take that finds its deliveries used up. -/
theorem lost_apply (hi : s.Indexed) (hr : s.row? x ≠ none) (ha : (s.apply op).2.row? x = none) :
    op = .commit x ∨ op = .purge ∨ ∃ retry cap now row m, op = .take retry cap now ∧
      s.row? x = some row ∧ Row.decode row = .ok m ∧ cap ≤ m.deliveries := by
  have hp := effect_apply hi x op
  generalize hq : (s.apply op).2.place x = p at hp
  have hrow : p.row = none := (congrArg Place.row hq).symm.trans ha
  cases hp with
  | spared | promoted => exact absurd hrow hr
  | readied | delayed | rescheduled | overwritten => cases hrow
  | @popped retry cap now p hh hp =>
    generalize (s.takeOne retry cap now).1 = k at hp
    cases hp with
    | dangling hn => exact absurd hn hr
    | exhausted hs hm hle => exact .inr (.inr ⟨retry, cap, now, _, _, rfl, hs, hm, hle⟩)
    | unreadable | delivered => cases hrow
  | committed => exact .inl rfl
  | purged => exact .inr (.inl rfl)

/-- Every known message is in its place and its row counts its deliveries, of which there are
at most `cap`. One that has no row is finished with or has used them up. -/
structure Ledger (s : Space) (known : String → Prop) (times : String → Nat)
    (finished : String → Prop) (cap : Nat) : Prop where
  indexed : s.Indexed
  unknown : ∀ x, ¬ known x → s.place x = .vacant ∧ times x = 0
  told : ∀ x, known x → times x ≤ cap ∧ ∃ m d, m.id = x ∧ s.Tracks m (times x) d
  gone : ∀ x, known x → s.row? x = none → finished x ∨ times x = cap

/-- An operation that a ledger allows. -/
structure Admits (finished : String → Prop) (cap : Nat) (op : StoreOp) : Prop where
  produced : op.produced = []
  unraw : op.isRaw = false
  unpurged : op ≠ .purge
  committed : ∀ x, op = .commit x → finished x
  capped : ∀ retry cap' now, op = .take retry cap' now → cap'.toNat = cap

theorem Admits.timing {finished : String → Prop} {cap : Nat} (h : op.isTiming = true) :
    Admits finished cap op := by
  cases op with
  | reschedule | promote => exact ⟨rfl, rfl, nofun, nofun, fun _ _ _ he => nomatch he⟩
  | _ => cases h

theorem Admits.commit {finished : String → Prop} {cap : Nat} (h : finished x) :
    Admits finished cap (.commit x) where
  produced := rfl
  unraw := rfl
  unpurged := nofun
  committed _ he := by cases he; exact h
  capped _ _ _ he := nomatch he

theorem handedOut?_eq_none (h : ∀ retry cap now, op ≠ .take retry cap now) (x : String) :
    s.handedOut? x op = none := by
  cases op with
  | take => exact absurd rfl (h _ _ _)
  | _ => simp only [handedOut?, apply]

namespace Ledger

variable {known : String → Prop} {times : String → Nat} {finished finished' : String → Prop}
  {cap : Nat}

theorem empty : Ledger empty (fun _ => False) (fun _ => 0) finished cap where
  indexed := indexed_empty
  unknown _ _ := ⟨place_empty, rfl⟩
  told _ h := h.elim
  gone _ h := h.elim

theorem mono (h : s.Ledger known times finished cap) (hf : ∀ x, finished x → finished' x) :
    s.Ledger known times finished' cap where
  indexed := h.indexed
  unknown := h.unknown
  told := h.told
  gone x hx hr := (h.gone x hx hr).imp_left (hf x)

theorem sound (h : s.Ledger known times finished cap) (x : String) : (s.place x).Sound := by
  by_cases hx : known x
  · obtain ⟨-, m, d, rfl, ht⟩ := h.told x hx
    exact ht.sound
  · rw [(h.unknown x hx).1]
    exact Place.sound_vacant

theorem produce (h : s.Ledger known times finished cap) (hm : ¬ known m.id)
    (h0 : m.deliveries = 0) (now : Time) :
    (s.produce m now).Ledger (fun x => known x ∨ x = m.id) times finished cap where
  indexed := h.indexed.produce m now
  unknown x hx := by
    obtain ⟨hx, hne⟩ := not_or.mp hx
    exact ⟨(place_produce_of_ne (Ne.symm hne)).trans (h.unknown x hx).1, (h.unknown x hx).2⟩
  told x hx := by
    obtain ⟨hv, ht⟩ := h.unknown m.id hm
    by_cases he : x = m.id
    · subst he
      rw [ht]
      exact ⟨Nat.zero_le _, m, _, rfl, tracks_produce h.indexed hv h0 now⟩
    · obtain ⟨hle, m', d, rfl, htr⟩ := h.told x (hx.resolve_right he)
      have hn : m'.id ∉ (StoreOp.produce m now).produced := by simpa [StoreOp.produced] using he
      exact ⟨hle, m', _, rfl, htr.apply hn rfl⟩
  gone x hx hr := by
    by_cases he : x = m.id
    · subst he
      rw [row?_produce_self] at hr; cases hr
    · exact h.gone x (hx.resolve_right he)
        ((congrArg Place.row (place_produce_of_ne (Ne.symm he))).symm.trans hr)

theorem apply (h : s.Ledger known times finished cap) (ha : Admits finished cap op) :
    (s.apply op).2.Ledger known
      (fun x => if (s.handedOut? x op).isSome then times x + 1 else times x) finished cap where
  indexed := h.indexed.apply op
  unknown x hx := by
    obtain ⟨hv, ht⟩ := h.unknown x hx
    refine ⟨vacant_apply h.indexed hv (by rw [ha.produced]; simp) fun row he => ?_, ?_⟩
    · have := ha.unraw
      rw [he] at this; cases this
    · cases ho : s.handedOut? x op with
      | none => exact ht
      | some row =>
        obtain ⟨-, -, -, -, hh, -⟩ := handedOut?_eq_some ho
        exact absurd hh (not_head_of_vacant hv)
  told x hx := by
    obtain ⟨hle, m, d, rfl, ht⟩ := h.told x hx
    refine ⟨?_, m, _, rfl, ht.apply (by rw [ha.produced]; simp) ha.unraw⟩
    cases ho : s.handedOut? m.id op with
    | none => exact hle
    | some row =>
      obtain ⟨retry, cap', now, rfl, -, -⟩ := handedOut?_eq_some ho
      rw [← ha.capped retry cap' now rfl]
      exact (ht.of_handedOut ho).1
  gone x hx hr := by
    obtain ⟨hle, m, d, rfl, ht⟩ := h.told x hx
    have hn : s.handedOut? m.id op = none := by
      rw [← Option.not_isSome_iff_eq_none]
      intro hs
      obtain ⟨row, ho⟩ := Option.isSome_iff_exists.mp hs
      obtain ⟨retry, cap', now, rfl, -, -⟩ := handedOut?_eq_some ho
      cases (ht.of_handedOut ho).2.1.symm.trans hr
    rw [hn]
    by_cases hrow : s.row? m.id = none
    · exact h.gone _ hx hrow
    · rcases lost_apply h.indexed hrow hr with
        rfl | rfl | ⟨retry, cap', now, row, m', rfl, hs, hm, hcap⟩
      · exact .inl (ha.committed _ rfl)
      · exact absurd rfl ha.unpurged
      · obtain ⟨m'', hm'', hret⟩ := ht.retold row hs
        obtain rfl := Except.ok.inj (hm.symm.trans hm'')
        have := UInt64.le_iff_toNat_le.mp hcap
        rw [ha.capped retry cap' now rfl, hret.deliveries] at this
        exact .inr (Nat.le_antisymm hle this)

theorem apply_of_none (h : s.Ledger known times finished cap) (ha : Admits finished cap op)
    (hn : ∀ x, s.handedOut? x op = none) : (s.apply op).2.Ledger known times finished cap := by
  simpa only [hn, Option.isSome_none, Bool.false_eq_true, if_false] using h.apply ha

theorem take {cap' : UInt64} (h : s.Ledger known times finished cap) (hcap : cap'.toNat = cap)
    (retry : Duration) (now : Time) :
    (∃ row m, (s.takeOne retry cap' now).1 = .taken row ∧ Row.decode row = .ok m ∧
      (s.takeOne retry cap' now).2.Ledger known
        (fun x => if m.id = x then times x + 1 else times x) finished cap) ∨
    ((∀ row, (s.takeOne retry cap' now).1 ≠ .taken row) ∧
      (s.takeOne retry cap' now).2.Ledger known times finished cap) := by
  have ha : Admits finished cap (.take retry cap' now) :=
    ⟨rfl, rfl, nofun, nofun, fun _ _ _ he => by cases he; exact hcap⟩
  by_cases ht : ∃ row, (s.takeOne retry cap' now).1 = .taken row
  · obtain ⟨row, ht⟩ := ht
    obtain ⟨y, hy⟩ : ∃ y, s.ready.head? = some y := by
      cases hr : s.ready with
      | nil => rw [takeOne_of_nil hr] at ht; cases ht
      | cons y rest => exact ⟨y, rfl⟩
    have hk : known y := by
      by_contra hn
      exact not_head_of_vacant (h.unknown y hn).1 hy
    obtain ⟨-, m, d, rfl, htr⟩ := h.told y hk
    obtain ⟨-, -, m', hm', hret, -⟩ := htr.of_handedOut (handedOut?_of_taken hy ht)
    refine .inl ⟨row, m', ht, hm', ?_⟩
    have hout : ∀ x, (s.handedOut? x (.take retry cap' now)).isSome = true ↔ m'.id = x := by
      intro x
      rw [hret.id]
      constructor
      · intro hs
        obtain ⟨_, ho⟩ := Option.isSome_iff_exists.mp hs
        obtain ⟨-, -, -, -, hh, -⟩ := handedOut?_eq_some ho
        exact Option.some.inj (hy.symm.trans hh)
      · rintro rfl
        rw [handedOut?_of_taken hy ht]; rfl
    have hl := h.apply ha
    simp only [hout] at hl
    exact hl
  · have hne : ∀ row, (s.takeOne retry cap' now).1 ≠ .taken row := fun row hr => ht ⟨row, hr⟩
    refine .inr ⟨hne, h.apply_of_none ha fun x => ?_⟩
    cases ho : s.handedOut? x (.take retry cap' now) with
    | none => rfl
    | some row =>
      obtain ⟨_, _, _, ⟨⟩, -, hr⟩ := handedOut?_eq_some ho
      exact absurd hr (hne row)

end Ledger

end DelayedQueue.Space
