import Stylesheet.Syntax.Span
import Stylesheet.Syntax.Token

/-!
# Lexemes

A lexeme is a token with its text and its place. `tokenize` cuts a source into lexemes, each as
long as any pattern allows; a character at which no pattern matches ends it with its offset.

* `munch_append`: a step cuts its input in two and loses nothing.
* `munch_ne_nil`: a step always takes at least one character.
-/

namespace Stylesheet

/-- A token with its text and its place in the source. -/
structure Lexeme where
  token : Token
  text : String
  span : Span
  deriving DecidableEq, Repr

namespace Lexeme

/-- What is left of the patterns of some tokens after a leading `c`. -/
def advance (c : Char) (live : List (Token × Pattern)) : List (Token × Pattern) :=
  live.filterMap fun (t, p) =>
    match p.after c with
    | .never => none
    | p => some (t, p)

/-- The longest prefix of the input that completes one of the patterns, with its token and what
is left of the input. The input is read until no pattern is left; then the last point at which
one was complete counts. -/
def munch (live : List (Token × Pattern)) : List Char → Option (Token × List Char × List Char)
  | [] => none
  | c :: cs =>
      match advance c live with
      | [] => none
      | live =>
          match munch live cs with
          | some (t, text, rest) => some (t, c :: text, rest)
          | none => (live.find? (·.2.matchesEmpty)).map fun (t, _) => (t, [c], cs)

/-- Every token with its full pattern. -/
def start : List (Token × Pattern) := Token.kinds.map fun t => (t, t.pattern)

theorem munch_append {live : List (Token × Pattern)} {cs text rest : List Char} {t : Token}
    (h : munch live cs = some (t, text, rest)) : text ++ rest = cs := by
  induction cs generalizing live text with
  | nil => simp [munch] at h
  | cons c cs ih =>
    simp only [munch] at h
    split at h
    · cases h
    · split at h
      · next hm =>
        simp only [Option.some.injEq, Prod.mk.injEq] at h
        obtain ⟨rfl, rfl, rfl⟩ := h
        simp [ih hm]
      · obtain ⟨_, _, h⟩ := Option.map_eq_some_iff.1 h
        simp only [Prod.mk.injEq] at h
        obtain ⟨_, rfl, rfl⟩ := h
        rfl

theorem munch_ne_nil {live : List (Token × Pattern)} {cs text rest : List Char} {t : Token}
    (h : munch live cs = some (t, text, rest)) : text ≠ [] := by
  cases cs with
  | nil => simp [munch] at h
  | cons c cs =>
    simp only [munch] at h
    split at h
    · cases h
    · split at h
      · simp only [Option.some.injEq, Prod.mk.injEq] at h
        exact h.2.1 ▸ List.cons_ne_nil _ _
      · obtain ⟨_, _, h⟩ := Option.map_eq_some_iff.1 h
        simp only [Prod.mk.injEq] at h
        exact h.2.1 ▸ List.cons_ne_nil _ _

theorem munch_length {live : List (Token × Pattern)} {cs text rest : List Char} {t : Token}
    (h : munch live cs = some (t, text, rest)) : rest.length < cs.length := by
  have hpos := List.length_pos_iff.2 (munch_ne_nil h)
  have := congrArg List.length (munch_append h)
  rw [List.length_append] at this
  omega

/-- The lexemes of the characters that stand at the given offset, or the offset of the first
character at which no token starts. -/
def cut (offset : Nat) (cs : List Char) : Except Nat (List Lexeme) :=
  match cs with
  | [] => .ok []
  | c :: cs' =>
      match _h : munch start (c :: cs') with
      | none => .error offset
      | some (t, text, rest) =>
          let stop := offset + width text
          match cut stop rest with
          | .error e => .error e
          | .ok more => .ok (⟨t, String.ofList text, ⟨offset, stop⟩⟩ :: more)
termination_by cs.length
decreasing_by exact munch_length _h

end Lexeme

/-- The lexemes of a source, or the offset of the first character at which no token starts. -/
def tokenize (source : String) : Except Nat (List Lexeme) := Lexeme.cut 0 source.toList

end Stylesheet
