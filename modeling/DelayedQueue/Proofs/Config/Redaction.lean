import Mathlib.Data.List.DropRight
import DelayedQueue.Config.Server

/-! # What the log shows of a password

In an address with a login, what is hidden begins behind the last colon before the `@`, and a
password may have colons of its own. The log shows such a password up to its last colon. One
without a colon is hidden, whatever it is, and everything around it stays.
-/

namespace DelayedQueue

namespace Server

variable {scheme user p p₁ p₂ rest : String} {cs ds : List Char}

/-- The address of a server that asks for a login. -/
def withLogin (scheme user password rest : String) : Server :=
  ⟨scheme ++ "://" ++ user ++ ":" ++ password ++ "@" ++ rest⟩

/-- A password up to its last colon, that colon included. -/
def shown (password : String) : String :=
  String.ofList (password.toList.rdropWhile (· != ':'))

theorem rdropWhile_colon_eq_nil_iff : cs.rdropWhile (· != ':') = [] ↔ ':' ∉ cs := by
  rw [List.rdropWhile_eq_nil_iff]
  exact ⟨fun h hc => by simpa using h _ hc,
    fun h c hc => by simpa using fun heq : c = ':' => h (heq ▸ hc)⟩

theorem splitAtLastColon_eq (cs : List Char) :
    splitAtLastColon cs = if ':' ∈ cs then
      some (cs.rdropWhile (· != ':'), cs.rtakeWhile (· != ':')) else none := by
  have hsplit := List.rdropWhile_append_rtakeWhile (p := (· != ':')) (l := cs)
  have hlen : (cs.rdropWhile (· != ':')).length =
      cs.length - (cs.rtakeWhile (· != ':')).length := by
    have := congrArg List.length hsplit
    rw [List.length_append] at this
    omega
  have htake : cs.take (cs.length - (cs.rtakeWhile (· != ':')).length) =
      cs.rdropWhile (· != ':') := by
    conv_lhs => arg 2; rw [← hsplit]
    exact List.take_left' hlen
  have hnil : (cs.rdropWhile (· != ':')).isEmpty = true ↔ ':' ∉ cs := by
    rw [List.isEmpty_iff, rdropWhile_colon_eq_nil_iff]
  change (if (cs.take (cs.length - (cs.rtakeWhile (· != ':')).length)).isEmpty then none else
    some (cs.take (cs.length - (cs.rtakeWhile (· != ':')).length),
      cs.rtakeWhile (· != ':'))) = _
  rw [htake]
  by_cases h : ':' ∈ cs <;> simp [h, hnil]

/-- The last colon of a text that goes on behind a colon is the last one of what goes on, or that
colon. -/
theorem rdropWhile_append_colon (cs ds : List Char) :
    (cs ++ ':' :: ds).rdropWhile (· != ':') = cs ++ ':' :: ds.rdropWhile (· != ':') := by
  induction ds using List.reverseRecOn with
  | nil => simp
  | append_singleton ds d ih =>
    rw [← List.cons_append, ← List.append_assoc, List.rdropWhile_concat, ih, List.rdropWhile_concat]
    split <;> simp

theorem rtakeWhile_append_colon (cs ds : List Char) :
    (cs ++ ':' :: ds).rtakeWhile (· != ':') = ds.rtakeWhile (· != ':') := by
  have h := List.rdropWhile_append_rtakeWhile (p := (· != ':')) (l := cs ++ ':' :: ds)
  rw [rdropWhile_append_colon, List.append_assoc, List.cons_append, List.append_cancel_left_eq,
    List.cons.injEq] at h
  exact List.append_cancel_left (h.2.trans List.rdropWhile_append_rtakeWhile.symm)

/-- A login hides what its part behind the colon has behind its last colon. -/
theorem redactChars_login (hcs : '@' ∉ cs) (hds : '@' ∉ ds) (hslash : '/' ∉ ds) (es : List Char) :
    redactChars (cs ++ ':' :: (ds ++ '@' :: es)) =
      cs ++ ':' :: (ds.rdropWhile (· != ':') ++ ('*' :: '*' :: '*' :: '@' :: es)) := by
  have hne : ∀ c ∈ cs ++ ':' :: ds, (c != '@') = true := by
    intro c hc
    rw [bne_iff_ne]
    rintro rfl
    simp [hcs, hds] at hc
  have hurl : cs ++ ':' :: (ds ++ '@' :: es) = (cs ++ ':' :: ds) ++ '@' :: es := by simp
  have hbefore : (cs ++ ':' :: (ds ++ '@' :: es)).takeWhile (· != '@') = cs ++ ':' :: ds := by
    rw [hurl, List.takeWhile_append_of_pos hne]
    simp
  have hrest : (cs ++ ':' :: (ds ++ '@' :: es)).dropWhile (· != '@') = '@' :: es := by
    rw [hurl, List.dropWhile_append_of_pos hne]
    simp
  -- The colon is not the scheme's: a password has no slash, and behind it stands the `@`.
  have hscheme : ['/', '/'].isPrefixOf (ds.rtakeWhile (· != ':') ++ '@' :: es) = false := by
    cases hs : ds.rtakeWhile (· != ':') with
    | nil => rfl
    | cons d _ =>
      have hd : d ≠ '/' := by
        rintro rfl
        exact hslash ((List.rtakeWhile_suffix _ ds).subset (hs ▸ List.mem_cons_self))
      simp [List.isPrefixOf, hd.symm]
  simp only [redactChars, hbefore, hrest, splitAtLastColon_eq, rdropWhile_append_colon,
    rtakeWhile_append_colon, List.mem_append, List.mem_cons, true_or, or_true, if_true, hscheme]
  simp

theorem shown_eq_empty_iff : shown p = "" ↔ ':' ∉ p.toList := by
  rw [shown, ← String.toList_inj, String.toList_ofList]
  exact rdropWhile_colon_eq_nil_iff

theorem redacted_withLogin (hscheme : '@' ∉ scheme.toList) (huser : '@' ∉ user.toList)
    (hp : '@' ∉ p.toList) (hslash : '/' ∉ p.toList) :
    (withLogin scheme user p rest).redacted =
      scheme ++ "://" ++ user ++ ":" ++ shown p ++ "***@" ++ rest := by
  have hbefore : '@' ∉ scheme.toList ++ ':' :: '/' :: '/' :: user.toList := by
    simp [hscheme, huser]
  have hurl : (withLogin scheme user p rest).url.toList =
      (scheme.toList ++ ':' :: '/' :: '/' :: user.toList) ++
        ':' :: (p.toList ++ '@' :: rest.toList) := by
    simp [withLogin]
  rw [redacted, hurl, redactChars_login hbefore hp hslash, ← String.toList_inj]
  simp [shown]

/-- Of an address with a login the log has all but what stands behind the last colon of the
password. So two passwords look the same in it if and only if they are the same up to their last
colon, and nothing of a password is seen if and only if it has no colon. -/
theorem password_hidden_iff (hscheme : '@' ∉ scheme.toList) (huser : '@' ∉ user.toList)
    (hat₁ : '@' ∉ p₁.toList) (hslash₁ : '/' ∉ p₁.toList) (hat₂ : '@' ∉ p₂.toList)
    (hslash₂ : '/' ∉ p₂.toList) :
    (withLogin scheme user p₁ rest).redacted =
        scheme ++ "://" ++ user ++ ":" ++ shown p₁ ++ "***@" ++ rest ∧
      ((withLogin scheme user p₁ rest).redacted = (withLogin scheme user p₂ rest).redacted ↔
        shown p₁ = shown p₂) ∧
      ((withLogin scheme user p₁ rest).redacted =
          scheme ++ "://" ++ user ++ ":***@" ++ rest ↔ ':' ∉ p₁.toList) := by
  have hsame (a b : String) : scheme ++ "://" ++ user ++ ":" ++ a ++ "***@" ++ rest =
      scheme ++ "://" ++ user ++ ":" ++ b ++ "***@" ++ rest ↔ a = b := by
    simp only [← String.toList_inj, String.toList_append, List.append_assoc,
      List.append_cancel_left_eq]
    exact List.append_left_inj _
  have hnothing : scheme ++ "://" ++ user ++ ":***@" ++ rest =
      scheme ++ "://" ++ user ++ ":" ++ "" ++ "***@" ++ rest := by
    simp [← String.toList_inj]
  have hredacted : (withLogin scheme user p₁ rest).redacted =
      scheme ++ "://" ++ user ++ ":" ++ shown p₁ ++ "***@" ++ rest :=
    redacted_withLogin hscheme huser hat₁ hslash₁
  refine ⟨hredacted, ?_, ?_⟩
  · rw [hredacted, redacted_withLogin hscheme huser hat₂ hslash₂, hsame]
  · rw [hredacted, hnothing, hsame, shown_eq_empty_iff]

/-- Two passwords that agree up to their last colon, and one without a colon. -/
theorem password_hidden_secret :
    (withLogin "redis" "user" "a:b" "localhost:6379").redacted =
        (withLogin "redis" "user" "a:c" "localhost:6379").redacted ∧
      (withLogin "redis" "user" "secret" "localhost:6379").redacted =
        "redis" ++ "://" ++ "user" ++ ":***@" ++ "localhost:6379" := by
  obtain ⟨-, hsame, -⟩ := @password_hidden_iff "redis" "user" "a:b" "a:c" "localhost:6379"
    (by simp) (by simp) (by simp) (by simp) (by simp) (by simp)
  obtain ⟨-, -, hnothing⟩ := @password_hidden_iff "redis" "user" "secret" "a:c" "localhost:6379"
    (by simp) (by simp) (by simp) (by simp) (by simp) (by simp)
  exact ⟨hsame.mpr (by decide +kernel), hnothing.mpr (by simp)⟩

/-- Two passwords, neither with a character that means anything in an address but the colon, one
of which is seen in part. -/
theorem passwords_differ :
    ¬ ∀ scheme user p₁ p₂ rest : String,
      (∀ c ∈ scheme.toList, c ∉ [':', '@', '/', '?', '#']) →
      (∀ c ∈ user.toList, c ∉ [':', '@', '/', '?', '#']) →
      (∀ c ∈ p₁.toList, c ∉ ['@', '/', '?', '#']) →
      (∀ c ∈ p₂.toList, c ∉ ['@', '/', '?', '#']) → '@' ∉ rest.toList →
      (withLogin scheme user p₁ rest).redacted = (withLogin scheme user p₂ rest).redacted := by
  intro h
  have hsame := h "redis" "user" "a:b" "b" "localhost:6379" (by simp) (by simp) (by simp) (by simp)
    (by simp)
  revert hsame
  decide +kernel

end Server

end DelayedQueue
