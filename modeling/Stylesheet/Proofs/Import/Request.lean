import Stylesheet.Import.Request

/-!
# Requests of URLs

The request for a URL is what stands behind the last tilde before its first question mark, if there
is such a tilde. Only without one does it matter how the URL starts: a URL that is absolute or says
that it is relative stays as it is, and any other is taken relative to the importing file.

* `requestChars_eq`: the request for every URL, in one equation.
* `request_rules`: URLs by how they start. Those that say where they start stay as they are exactly
  if no tilde stands before their first question mark.
* `request_counterexample`: an absolute and a relative URL that do not.
-/

namespace Stylesheet
namespace Import

/-! ### Tildes -/

/-- A tilde stands before the first question mark, if there is one. -/
def TildeAhead (url : List Char) : Prop := '~' ∈ url.takeWhile (· ≠ '?')

instance (url : List Char) : Decidable (TildeAhead url) := by
  unfold TildeAhead
  infer_instance

variable {url front rest : List Char} {c : Char}

theorem tildeAhead_cons : TildeAhead (c :: url) ↔ c ≠ '?' ∧ (c = '~' ∨ TildeAhead url) := by
  unfold TildeAhead
  by_cases hc : c = '?' <;> simp [hc, eq_comm]

/-- No tilde is in front of a URL that is taken relative to a file. -/
theorem tildeAhead_below : TildeAhead ('.' :: '/' :: url) ↔ TildeAhead url := by
  simp [tildeAhead_cons]

theorem afterTilde?_eq_none_iff : afterTilde? url = none ↔ ¬ TildeAhead url := by
  induction url with
  | nil => simp [afterTilde?, TildeAhead]
  | cons c url ih =>
    rw [tildeAhead_cons]
    unfold afterTilde?
    by_cases hc : c = '?'
    · simp [hc]
    · cases h : afterTilde? url with
      | none => simp [hc, ← ih, h]
      | some rest => simp [hc, ← ih, h]

/-- Characters in front do not change what stands behind a tilde. -/
theorem afterTilde?_append (hfront : '?' ∉ front) (h : TildeAhead url) :
    afterTilde? (front ++ url) = afterTilde? url := by
  induction front with
  | nil => rfl
  | cons c front ih =>
    rw [List.mem_cons, not_or] at hfront
    obtain ⟨rest, hrest⟩ : ∃ rest, afterTilde? url = some rest := by
      rw [← Option.ne_none_iff_exists', Ne, afterTilde?_eq_none_iff, Decidable.not_not]
      exact h
    rw [List.cons_append, afterTilde?, if_neg (Ne.symm hfront.1), ih hfront.2, hrest]

/-- **What stands behind the last tilde** before a question mark. -/
theorem afterTilde?_cut (hfront : '?' ∉ front) (hrest : ¬ TildeAhead rest) :
    afterTilde? (front ++ '~' :: rest) = some rest := by
  rw [afterTilde?_append hfront (tildeAhead_cons.2 ⟨by decide, .inl rfl⟩), afterTilde?,
    if_neg (by decide), afterTilde?_eq_none_iff.2 hrest]
  rfl

theorem length_afterTilde? (h : afterTilde? url = some rest) : rest.length < url.length := by
  induction url generalizing rest with
  | nil => cases h
  | cons c url ih =>
    unfold afterTilde? at h
    split at h
    · cases h
    · split at h
      · next hr =>
        cases h
        exact Nat.lt_succ_of_lt (ih hr)
      · split at h
        · cases h
          exact Nat.lt_succ_self _
        · cases h

/-! ### How URLs start -/

/-- **A URL is absolute** if it starts with a slash, or with a letter, a colon and a backslash. -/
inductive Absolute : String → Prop
  | slash (rest : String) : Absolute ("/" ++ rest)
  | drive (c : Char) (rest : String) : c.isAlpha = true →
      Absolute (String.ofList [c, ':', '\\'] ++ rest)

/-- **A URL is relative** if it says so by a single or a double dot and a slash. -/
inductive Relative : String → Prop
  | here (rest : String) : Relative ("./" ++ rest)
  | up (rest : String) : Relative ("../" ++ rest)

theorem eq_append_of_toList {url : String} {rest : List Char} (start : String)
    (h : start.toList ++ rest = url.toList) : url = start ++ String.ofList rest := by
  rw [← String.toList_inj, ← h, String.toList_append, String.toList_ofList]

theorem startsWithDrive_iff :
    startsWithDrive url = true ↔ ∃ c rest, c.isAlpha = true ∧ url = c :: ':' :: '\\' :: rest := by
  unfold startsWithDrive
  split
  · next c rest =>
    have hupper : ('A' ≤ c && c ≤ 'Z') = c.isUpper := (Bool.decide_and _ _).symm
    have hletter : (('a' ≤ c && c ≤ 'z') || ('A' ≤ c && c ≤ 'Z')) = c.isAlpha := by
      rw [hupper]
      exact Bool.or_comm c.isLower c.isUpper
    rw [hletter]
    constructor
    · exact fun h => ⟨c, rest, h, rfl⟩
    · rintro ⟨c', rest', h, heq⟩
      cases heq
      exact h
  · next hno =>
    constructor
    · intro h
      cases h
    · rintro ⟨c, rest, -, rfl⟩
      exact absurd rfl (hno c rest)

theorem isAnchored_iff {url : String} :
    isAnchored url.toList = true ↔ Absolute url ∨ Relative url := by
  simp only [isAnchored, Bool.or_eq_true, startsWithDrive_iff, List.isPrefixOf_iff_prefix]
  constructor
  · rintro (((⟨c, rest, hc, h⟩ | ⟨rest, h⟩) | ⟨rest, h⟩) | ⟨rest, h⟩)
    · have hurl : url = String.ofList [c, ':', '\\'] ++ String.ofList rest :=
        eq_append_of_toList _ (by rw [h, String.toList_ofList]; rfl)
      rw [hurl]
      exact .inl (.drive c _ hc)
    · rw [eq_append_of_toList "/" h]
      exact .inl (.slash _)
    · rw [eq_append_of_toList "./" h]
      exact .inr (.here _)
    · rw [eq_append_of_toList "../" h]
      exact .inr (.up _)
  · rintro ((⟨rest⟩ | ⟨c, rest, hc⟩) | (⟨rest⟩ | ⟨rest⟩))
    all_goals rw [String.toList_append]
    · exact .inl (.inl (.inr ⟨_, rfl⟩))
    · exact .inl (.inl (.inl ⟨c, rest.toList, hc, by rw [String.toList_ofList]; rfl⟩))
    · exact .inl (.inr ⟨_, rfl⟩)
    · exact .inr ⟨_, rfl⟩

instance (url : String) : Decidable (Absolute url ∨ Relative url) :=
  decidable_of_iff _ isAnchored_iff

/-! ### Requests -/

/-- **The request for a URL:** what stands behind a tilde, or the URL itself if it says where it
starts, or the URL below the importing file. -/
theorem requestChars_eq :
    requestChars url =
      (afterTilde? url).getD (if url = [] ∨ isAnchored url = true then url else '.' :: '/' :: url) := by
  unfold requestChars
  by_cases hempty : url = []
  · rw [hempty]
    rfl
  · rw [if_neg (by rwa [List.isEmpty_iff])]
    dsimp only
    by_cases hstart : isAnchored url = true
    · rw [if_pos hstart, if_pos (.inr hstart)]
    · rw [if_neg hstart, if_neg (not_or.2 ⟨hempty, hstart⟩)]
      by_cases h : TildeAhead url
      · have hdot : '?' ∉ ['.', '/'] := by decide
        rw [← afterTilde?_append hdot h, List.cons_append, List.cons_append, List.nil_append]
      · rw [afterTilde?_eq_none_iff.2 h, afterTilde?_eq_none_iff.2 (mt tildeAhead_below.1 h)]

theorem request_toList (url : String) : (request url).toList = requestChars url.toList := by
  rw [request, String.toList_ofList]

theorem request_of_not_tildeAhead {url : String} (h : ¬ TildeAhead url.toList) :
    request url = if url = "" ∨ Absolute url ∨ Relative url then url else "./" ++ url := by
  rw [← String.toList_inj, request_toList, requestChars_eq, afterTilde?_eq_none_iff.2 h,
    Option.getD_none]
  by_cases hstart : url = "" ∨ Absolute url ∨ Relative url
  · rw [if_pos hstart, if_pos (hstart.imp String.toList_eq_nil_iff.2 isAnchored_iff.2)]
  · rw [if_neg hstart, if_neg (mt (Or.imp String.toList_eq_nil_iff.1 isAnchored_iff.1) hstart),
      String.toList_append]
    rfl

theorem request_cut {front rest : String} (hfront : '?' ∉ front.toList)
    (hrest : ¬ TildeAhead rest.toList) : request (front ++ "~" ++ rest) = rest := by
  have hcut : (front ++ "~" ++ rest).toList = front.toList ++ '~' :: rest.toList := by
    rw [String.toList_append, String.toList_append, List.append_assoc]
    rfl
  rw [← String.toList_inj, request_toList, requestChars_eq, hcut, afterTilde?_cut hfront hrest,
    Option.getD_some]

/-- The request for a URL with a tilde is shorter. -/
theorem request_ne_self {url : String} (h : TildeAhead url.toList) : request url ≠ url := by
  obtain ⟨rest, hrest⟩ : ∃ rest, afterTilde? url.toList = some rest := by
    rw [← Option.ne_none_iff_exists', Ne, afterTilde?_eq_none_iff, Decidable.not_not]
    exact h
  intro heq
  rw [← String.toList_inj, request_toList, requestChars_eq, hrest, Option.getD_some] at heq
  have hlt := length_afterTilde? hrest
  rw [heq] at hlt
  exact absurd hlt (Nat.lt_irrefl _)

/-- **Requests of URLs.** A URL that is absolute or relative comes back unchanged exactly if no
tilde stands before its first question mark. Behind a single tilde in front stands the request. The
empty URL stays empty, and any other URL without such a tilde is taken below the importing file.
With a tilde, the request is what stands behind the last one before the first question mark. -/
theorem request_rules (url : String) :
    (Absolute url ∨ Relative url → (request url = url ↔ ¬ TildeAhead url.toList)) ∧
    (∀ p, url = "~" ++ p → '~' ∉ p.toList → request url = p) ∧
    request "" = "" ∧
    (url ≠ "" → ¬ Absolute url → ¬ Relative url → ¬ TildeAhead url.toList →
      request url = "./" ++ url) ∧
    ∀ front rest, url = front ++ "~" ++ rest → '?' ∉ front.toList → ¬ TildeAhead rest.toList →
      request url = rest := by
  refine ⟨fun hstart => ⟨fun heq h => request_ne_self h heq, fun h => ?_⟩, ?_, rfl, ?_, ?_⟩
  · rw [request_of_not_tildeAhead h, if_pos (.inr hstart)]
  · rintro p rfl hp
    have hrest : ¬ TildeAhead p.toList := fun h => hp (List.takeWhile_subset _ h)
    rw [← String.empty_append (s := "~")]
    exact request_cut nofun hrest
  · intro hne habs hrel h
    rw [request_of_not_tildeAhead h, if_neg (by simp [hne, habs, hrel])]
  · rintro front rest rfl hfront hrest
    exact request_cut hfront hrest

theorem request_rules_package :
    '~' ∉ "kit/a?b".toList ∧ request "~kit/a?b" = "kit/a?b" ∧
      Absolute "/kit/a?~b" ∧ ¬ TildeAhead "/kit/a?~b".toList ∧ request "/kit/a?~b" = "/kit/a?~b" := by
  have hslash : Absolute "/kit/a?~b" := .slash "kit/a?~b"
  exact ⟨by decide, (request_rules "~kit/a?b").2.1 "kit/a?b" rfl (by decide), hslash, by decide,
    ((request_rules "/kit/a?~b").1 (.inl hslash)).2 (by decide)⟩

/-- **URLs that change** although they are absolute or relative: a tilde in them ends what is taken
for the name of a package. -/
theorem request_counterexample :
    (Absolute "/home/~me/main" ∧ request "/home/~me/main" = "me/main" ∧
      request "/home/~me/main" ≠ "/home/~me/main") ∧
    Relative "./~me/main" ∧ request "./~me/main" = "me/main" ∧
      request "./~me/main" ≠ "./~me/main" := by
  refine ⟨⟨.slash "home/~me/main", ?_, ?_⟩, .here "~me/main", ?_, ?_⟩
  all_goals decide

end Import
end Stylesheet
