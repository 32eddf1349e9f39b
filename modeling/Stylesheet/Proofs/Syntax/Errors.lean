import Stylesheet.Proofs.Syntax.Statements

/-!
# Where errors point

An error of a reader points at one of the lexemes that it was given, or asks for something behind
the last of them. A block is found by one look ahead and read by another walk to its brace; the two
agree, so that no reader ever asks for a brace.

* `ParseError.PointsAt`: an error names a lexeme, or asks for more.
* `opensBlock`, `untilBrace`: looking for a block and reading up to it, apart from each other.
* `statement_eq_byLookahead`: reading a statement in these two steps is reading it in one.
* `statements_error`: the errors of statements point at their lexemes.
-/

namespace Stylesheet

namespace ParseError

/-- The error names one of the lexemes, with its text and its place, or asks for something other
than a brace behind the last. -/
def PointsAt (ls : List Lexeme) : ParseError → Prop
  | unrecognized _ => False
  | unexpected found offset _ => ∃ l ∈ ls, l.text = found ∧ l.span.start = offset
  | ended expected => expected ≠ .openBrace

theorem pointsAt_misfit {l : Lexeme} {ls : List Lexeme} (h : l ∈ ls) (expected : Expected) :
    (misfit l expected).PointsAt ls := ⟨l, h, rfl, rfl⟩

theorem pointsAt_here (ls : List Lexeme) {expected : Expected} (h : expected ≠ .openBrace) :
    (here ls expected).PointsAt ls := by
  cases ls with
  | nil => exact h
  | cons l ls => exact pointsAt_misfit List.mem_cons_self expected

/-- What is read before the lexemes does not matter. -/
theorem PointsAt.behind {e : ParseError} {read rest ls : List Lexeme} (h : e.PointsAt rest)
    (hread : ls = read ++ rest) : e.PointsAt ls := by
  subst hread
  cases e with
  | unrecognized i => exact h
  | ended expected => exact h
  | unexpected found offset expected =>
    obtain ⟨l, hl, hplace⟩ := h
    exact ⟨l, List.mem_append_right _ hl, hplace⟩

theorem PointsAt.next {e : ParseError} {l : Lexeme} {rest ls : List Lexeme}
    (h : e.PointsAt rest) (hread : ls = l :: rest) : e.PointsAt ls :=
  h.behind (show ls = [l] ++ rest from hread)

end ParseError

namespace Parse

open ParseError

/-! ### Values and declarations -/

theorem expect_error {t : Token × Expected} (ht : t.2 ≠ .openBrace) {ls : List Lexeme}
    {e : ParseError} (h : expect t ls = .error e) : e.PointsAt ls := by
  cases ls with
  | nil => cases h; exact ht
  | cons l ls =>
    simp only [expect] at h
    split at h
    · cases h
    · cases h; exact pointsAt_misfit List.mem_cons_self _

theorem Stop.missing?_ne {stop : Stop} {e : Expected} (h : stop.missing? = some e) :
    e ≠ .openBrace := by
  cases stop <;> cases h <;> decide

theorem Opening.closer_ne (o : Opening) : o.closer.2 ≠ .openBrace := by
  cases o <;> exact nofun

theorem items_error {stop : Stop} {ls : List Lexeme} {e : ParseError}
    (h : items stop ls = .error e) : e.PointsAt ls := by
  fun_induction items stop ls with
  | case1 stop expected hm => cases h; exact Stop.missing?_ne hm
  | case2 => cases h
  | case3 => cases h
  | case4 stop l ls hs o ls₁ h₁ ho e' hi ih =>
    cases h
    exact (ih hi).behind (opening?_eq_some.1 ho).2
  | case5 stop l ls hs o ls₁ h₁ ho inside ls₂ h₂ hi e' hc ih =>
    cases h
    obtain ⟨read, hread, -⟩ := items_sound hi
    exact ((expect_error o.closer_ne hc).behind hread).behind (opening?_eq_some.1 ho).2
  | case6 stop l ls hs o ls₁ h₁ ho inside ls₂ h₂ hi close ls₃ h₃ hc e' hmore ih₁ ih₂ =>
    cases h
    obtain ⟨read, hread, -⟩ := items_sound hi
    exact (((ih₂ hmore).next (expect_iff.1 hc).1).behind hread).behind (opening?_eq_some.1 ho).2
  | case7 => cases h
  | case8 => cases h; exact pointsAt_misfit List.mem_cons_self _
  | case9 stop l ls hs ho n hn e' hmore ih => cases h; exact (ih hmore).next rfl
  | case10 => cases h

theorem propertyParts_error {ls : List Lexeme} {e : ParseError}
    (h : propertyParts ls = .error e) : e.PointsAt ls := by
  fun_induction propertyParts ls with
  | case1 => cases h
  | case2 l ls ht e' hmore ih | case4 l ls ht e' hmore ih => cases h; exact (ih hmore).next rfl
  | case3 => cases h
  | case5 => cases h
  | case6 l ls ht e' hi => cases h; exact (items_error hi).next rfl
  | case7 l ls ht inside ls₁ h₁ hi e' hc =>
    cases h
    obtain ⟨read, hread, -⟩ := items_sound hi
    exact ((expect_error (by decide) hc).behind hread).next rfl
  | case8 l ls ht inside ls₁ h₁ hi close ls₂ h₂ hc e' hmore ih =>
    cases h
    obtain ⟨read, hread, -⟩ := items_sound hi
    exact (((ih hmore).next (expect_iff.1 hc).1).behind hread).next rfl
  | case9 => cases h
  | case10 => cases h

theorem property_error {ls : List Lexeme} {e : ParseError} (h : property ls = .error e) :
    e.PointsAt ls := by
  cases ls with
  | nil => cases h; exact nofun
  | cons l ls =>
    simp only [property, bind, Except.bind] at h
    split at h
    · cases h
    · split at h
      · next hp => cases h; exact propertyParts_error hp
      · split at h <;> cases h
        exact pointsAt_misfit List.mem_cons_self _

theorem semicolon?_error {ls : List Lexeme} {e : ParseError} (h : semicolon? ls = .error e) :
    e.PointsAt ls := by
  cases ls with
  | nil => cases h
  | cons l ls =>
    simp only [semicolon?] at h
    split at h
    · cases h
    · split at h <;> cases h
      exact pointsAt_misfit List.mem_cons_self _

theorem front_error {ls : List Lexeme} {e : ParseError} (h : front ls = .error e) :
    e.PointsAt ls := by
  simp only [front] at h
  split at h
  · next hp => cases h; exact property_error hp
  · next prop ls₁ h₁ hprop =>
    obtain ⟨name, hname, -⟩ := property_sound hprop
    have hblanks := (leading_eq (·.token == .space) ls₁).1
    split at h
    · next hc => cases h; exact ((expect_error (by decide) hc).behind hblanks).behind hname
    · cases h

theorem declaration_error {ls : List Lexeme} {e : ParseError} (h : declaration ls = .error e) :
    e.PointsAt ls := by
  simp only [declaration] at h
  split at h
  · next hf => cases h; exact front_error hf
  next fr ls₁ h₁ hfront =>
  obtain ⟨name, -, hname⟩ := front_sound hfront
  split at h
  · next hi => cases h; exact (items_error hi).behind hname
  next found ls₂ h₂ hfound =>
  obtain ⟨read, hread, -⟩ := items_sound hfound
  split at h
  · cases h; exact ((pointsAt_here ls₂ (by decide)).behind hread).behind hname
  · split at h
    · next hs =>
      cases h
      have hflags := (leading_eq (fun l => l.token == .flag || l.token == .space) ls₂).1
      exact (((semicolon?_error hs).behind hflags).behind hread).behind hname
    · cases h

/-! ### Looking for a block -/

/-- Whether an opening brace comes before the next semicolon or closing brace, the braces of
interpolations left aside. -/
def opensBlock : Nat → List Lexeme → Bool
  | _, [] => false
  | depth, l :: ls =>
      match l.token, depth with
      | .interpolationStart, depth => opensBlock (depth + 1) ls
      | .closeBrace, depth + 1 => opensBlock depth ls
      | .openBrace, _ => true
      | .semicolon, _ | .closeBrace, 0 => false
      | _, depth => opensBlock depth ls

/-- What stands before the first opening brace, the brace, and what stands behind it. The braces of
interpolations are counted here too, but nothing depends on how many there are. -/
def untilBrace : Nat → List Lexeme → Except ParseError (List Lexeme × Lexeme × List Lexeme)
  | _, [] => .error (.ended .openBrace)
  | depth, l :: ls =>
      let further (depth : Nat) :=
        (untilBrace depth ls).map fun (before, brace, rest) => (l :: before, brace, rest)
      match l.token, depth with
      | .interpolationStart, depth => further (depth + 1)
      | .closeBrace, depth + 1 => further depth
      | .openBrace, _ => .ok ([], l, ls)
      | _, depth => further depth

/-- The result of a reader without the bound on what is left. -/
def plain {α : Type} {n : Nat}
    (r : Except ParseError (α × { rest : List Lexeme // rest.length < n })) :
    Except ParseError (α × List Lexeme) := r.map fun (a, rest) => (a, rest.1)

/-- A statement that starts with a lexeme of a rule or a declaration: a look ahead tells which, and
a rule is then read up to its brace. -/
def ruleOrDeclaration (ls : List Lexeme) : Except ParseError (Head × List Lexeme) :=
  if opensBlock 0 ls then
    (untilBrace 0 ls).map fun (before, brace, rest) => (.rule before brace, rest)
  else plain (plainDeclaration ls)

/-- **The look ahead** finds a block exactly where one is read, and what is read is what stands
before the first brace. -/
theorem selector?_eq (depth : Nat) (ls : List Lexeme) :
    (opensBlock depth ls = true → ∃ before brace r, selector? depth ls = some (before, brace, r) ∧
        untilBrace depth ls = .ok (before, brace, r.1)) ∧
      (opensBlock depth ls = false → selector? depth ls = none) := by
  induction ls generalizing depth with
  | nil => simp [opensBlock, selector?]
  | cons l ls ih =>
    -- a lexeme that the three walks pass over, with the same count behind it
    have hnext {e : Nat} (hopens : opensBlock depth (l :: ls) = opensBlock e ls)
        (huntil : untilBrace depth (l :: ls) =
          (untilBrace e ls).map fun found => (l :: found.1, found.2.1, found.2.2))
        (hselector : selector? depth (l :: ls) = (selector? e ls).map fun found =>
          (l :: found.1, found.2.1, (⟨found.2.2.1, Nat.lt_succ_of_lt found.2.2.2⟩ :
            { rest : List Lexeme // rest.length < (l :: ls).length }))) :
        (opensBlock depth (l :: ls) = true → ∃ before brace r,
            selector? depth (l :: ls) = some (before, brace, r) ∧
              untilBrace depth (l :: ls) = .ok (before, brace, r.1)) ∧
          (opensBlock depth (l :: ls) = false → selector? depth (l :: ls) = none) := by
      rw [hopens, hselector]
      obtain ⟨hfound, hnone⟩ := ih e
      refine ⟨fun h => ?_, fun h => by rw [hnone h]; rfl⟩
      obtain ⟨before, brace, r, hs, hu⟩ := hfound h
      exact ⟨l :: before, brace, ⟨r.1, Nat.lt_succ_of_lt r.2⟩, by rw [hs]; rfl,
        by rw [huntil, hu]; rfl⟩
    obtain ⟨t, text, span⟩ := l
    cases t
    case openBrace => simp [opensBlock, selector?, untilBrace]
    case semicolon => simp [opensBlock, selector?]
    case interpolationStart => exact hnext rfl rfl rfl
    case closeBrace =>
      cases depth with
      | zero => simp [opensBlock, selector?]
      | succ depth => exact hnext rfl rfl rfl
    all_goals exact hnext rfl rfl rfl

/-- **Two steps or one**: a statement that starts with a lexeme of a rule or a declaration is read
as the look ahead and the reader up to the brace have it. -/
theorem statement_eq_byLookahead {l : Lexeme} (hl : startsOther l.token = false)
    (ls : List Lexeme) :
    plain (statement l ls) = ruleOrDeclaration (l :: ls) := by
  have hrule {before : List Lexeme} {brace : Lexeme}
      {r : { rest : List Lexeme // rest.length < (l :: ls).length }}
      (hs : selector? 0 (l :: ls) = some (before, brace, r)) :
      statement l ls = .ok (.rule before brace, r) := by
    obtain ⟨t, text, span⟩ := l
    cases t <;> first | (cases hl; done) | simp only [statement, hs]
  have hplain (hs : selector? 0 (l :: ls) = none) :
      statement l ls = plainDeclaration (l :: ls) := by
    obtain ⟨t, text, span⟩ := l
    cases t <;> first | (cases hl; done) | simp only [statement, hs]
  rw [ruleOrDeclaration]
  obtain ⟨hfound, hnone⟩ := selector?_eq 0 (l :: ls)
  cases h : opensBlock 0 (l :: ls) with
  | true =>
    obtain ⟨before, brace, r, hs, hu⟩ := hfound h
    rw [hrule hs, hu]
    rfl
  | false =>
    rw [hplain (hnone h)]
    rfl

/-- **No brace is missed** where the look ahead has found one. -/
theorem untilBrace_of_opensBlock {ls : List Lexeme} (h : opensBlock 0 ls = true) :
    ∃ found, untilBrace 0 ls = .ok found := by
  obtain ⟨before, brace, r, -, hu⟩ := (selector?_eq 0 ls).1 h
  exact ⟨_, hu⟩

/-! ### Statements -/

theorem statement_error {l : Lexeme} {ls : List Lexeme} {e : ParseError}
    (h : statement l ls = .error e) : e.PointsAt (l :: ls) := by
  have hplain (h : plainDeclaration (l :: ls) = .error e) : e.PointsAt (l :: ls) := by
    simp only [plainDeclaration] at h
    split at h <;> cases h
    next hd => exact declaration_error hd
  simp only [statement] at h
  split at h
  case h_1 | h_2 | h_3 | h_4 => cases h
  case h_5 =>
    split at h <;> cases h
    next ha =>
    simp only [atRule] at ha
    split at ha
    · next hi => cases ha; exact (items_error hi).next rfl
    · split at ha
      · cases ha
      · split at ha
        · cases ha
        · split at ha <;> cases ha
  case h_6 => exact hplain h
  case h_7 =>
    split at h
    · cases h
    · exact hplain h

/-- **The errors of statements** point at their lexemes, or ask for more than there are. -/
theorem statements_error {inBlock : Bool} {ls : List Lexeme} {e : ParseError}
    (h : statements inBlock ls = .error e) : e.PointsAt ls := by
  fun_induction statements inBlock ls with
  | case1 =>
    cases h
    intro hbrace
    cases hbrace
  | case2 => cases h
  | case3 => cases h
  | case4 => cases h; exact pointsAt_misfit List.mem_cons_self _
  | case5 inBlock l ls ht e' hs => cases h; exact statement_error hs
  | case6 inBlock l ls ht n ls₁ h₁ hs e' hmore ih =>
    cases h
    obtain ⟨read, hread, -⟩ := statement_sound hs
    exact (ih hmore).behind hread
  | case7 => cases h
  | case8 inBlock l ls ht head ls₁ h₁ hne hs e' hi ih =>
    cases h
    obtain ⟨read, hread, -⟩ := statement_sound hs
    exact (ih hi).behind hread
  | case9 inBlock l ls ht head ls₁ h₁ hne hs inside ls₂ h₂ hi e' hc ih =>
    cases h
    obtain ⟨read, hread, -⟩ := statement_sound hs
    obtain ⟨read', hread', -⟩ := statements_sound hi
    exact ((expect_error (by decide) hc).behind hread').behind hread
  | case10 inBlock l ls ht head ls₁ h₁ hne hs inside ls₂ h₂ hi close ls₃ h₃ hc e' hmore ih₁ ih₂ =>
    cases h
    obtain ⟨read, hread, -⟩ := statement_sound hs
    obtain ⟨read', hread', -⟩ := statements_sound hi
    exact (((ih₂ hmore).next (expect_iff.1 hc).1).behind hread').behind hread
  | case11 => cases h

end Parse
end Stylesheet
