import Stylesheet.Proofs.Import.Once
import Stylesheet.Proofs.Render.MutedStatements
import Stylesheet.Proofs.Rule.CommentedStatements

/-!
# Comments carry no meaning where a blank carries none

A comment with a blank beside it may stand for the blank, and so may one that parts no two operands
and stands beside no sign, but for five places: between the name of a declaration and its colon,
behind its flags, behind a sign that ends its value, between `@else` and `if`, and in the arguments
of a call that is left to the browser or imported. Elsewhere a comment without a blank beside it
carries meaning: values that it parts are glued together.

* `EndsAlike`: runs that cannot be told apart but by the texts of their errors.
* `comment_is_blank`: a source with a comment, and the same source with a blank in its place.
-/

namespace Stylesheet

open Lexeme Render

/-- **Runs that end alike:** with the same variables and the same state of the host, and both succeed
or fail with the same error, but for the text that a fault was met at. -/
structure EndsAlike {σ : Type} (r r' : Except RenderError Unit × State σ) : Prop where
  result : Results Eq r.1 r'.1
  scopes : r'.2.sheet.scopes = r.2.sheet.scopes
  host : r'.2.host = r.2.host

theorem Render.Alike.endsAlike {σ : Type} {act act' : Render σ Unit} (h : Alike Eq act act')
    (s : State σ) : EndsAlike (act.run s) (act'.run s) := by
  obtain ⟨hresult, hstate⟩ := h s s rfl
  obtain ⟨hsheet, -, hhost⟩ := State.mute_eq_iff.1 hstate
  exact ⟨hresult, (Sheet.mute_eq_iff.1 hsheet).1, hhost⟩

/-- **A comment is a blank** if it has a blank beside it, or if a blank in its place parts nothing. If
the source with a blank in place of the comment has a tree, and the blank stands where a comment is
admitted, the source has a tree too; and whoever hosts them and within whatever limits, running the
one ends like running the other. -/
theorem comment_is_blank {source : String} {before behind : List Lexeme} {c : Lexeme}
    (h : tokenize source = .ok (before ++ c :: behind))
    (hc : c.token = .lineComment ∨ c.token = .blockComment)
    {tree : Node} (hparse : parse (blanked before behind) = .ok tree)
    (hbeside : BesideBlank before behind ∨
      ∀ n ∈ tree.nodes, n.PartsNothing (Node.IsBlankAt (width (texts before))))
    (hadmits : ∀ n ∈ tree.nodes, n.Admits (Node.IsBlankAt (width (texts before)))) :
    ∃ tree', parse source = .ok tree' ∧
      ∀ {σ : Type} [Log.Sink σ] (host : Host σ) (limits : Limits) (start : σ),
        EndsAlike
          ((runFile host limits limits.imports .entry (Stmt.ofTree tree)).run (entryState start))
          ((runFile host limits limits.imports .entry (Stmt.ofTree tree')).run (entryState start)) := by
  obtain ⟨tree', hparse', hmute⟩ := parse_blanked h hc hparse hbeside hadmits
  exact ⟨tree', hparse', fun host limits start =>
    (runsAlike_runFile host limits limits.imports .entry _ _ hmute).endsAlike _⟩

/-- A comment in front of an argument, with no blank beside it. -/
theorem comment_is_blank_sample :
    let before : List Lexeme := [⟨.variable, "$x", ⟨0, 2⟩⟩, ⟨.colon, ":", ⟨2, 3⟩⟩,
      ⟨.space, " ", ⟨3, 4⟩⟩, ⟨.ident, "f", ⟨4, 5⟩⟩, ⟨.openParen, "(", ⟨5, 6⟩⟩,
      ⟨.number, "1", ⟨6, 7⟩⟩, ⟨.comma, ",", ⟨7, 8⟩⟩]
    let c : Lexeme := ⟨.blockComment, "/* c */", ⟨8, 15⟩⟩
    let behind : List Lexeme := [⟨.number, "2", ⟨15, 16⟩⟩, ⟨.closeParen, ")", ⟨16, 17⟩⟩,
      ⟨.semicolon, ";", ⟨17, 18⟩⟩]
    let atBlank : Node → Prop := Node.IsBlankAt (width (texts before))
    tokenize "$x: f(1,/* c */2);" = .ok (before ++ c :: behind) ∧
      ∃ tree tree', parse (blanked before behind) = .ok tree ∧
        (∀ n ∈ tree.nodes, n.PartsNothing atBlank) ∧ (∀ n ∈ tree.nodes, n.Admits atBlank) ∧
        parse "$x: f(1,/* c */2);" = .ok tree' ∧
        ∀ {σ : Type} [Log.Sink σ] (host : Host σ) (limits : Limits) (start : σ),
          EndsAlike
            ((runFile host limits limits.imports .entry (Stmt.ofTree tree)).run (entryState start))
            ((runFile host limits limits.imports .entry (Stmt.ofTree tree')).run
              (entryState start)) := by
  intro before c behind atBlank
  have htokens : (tokenize "$x: f(1,/* c */2);").toOption = some (before ++ c :: behind) := by
    decide +kernel
  have htree : (parse (blanked before behind)).toOption.any (fun tree =>
      decide (∀ n ∈ tree.nodes,
        n.PartsNothing (Node.IsBlankAt (width (texts before))) ∧
          n.Admits (Node.IsBlankAt (width (texts before))))) = true := by
    decide +kernel
  cases hlex : tokenize "$x: f(1,/* c */2);" with
  | error i =>
    rw [hlex] at htokens
    cases htokens
  | ok ls =>
    rw [hlex] at htokens
    obtain rfl : ls = before ++ c :: behind := Option.some.inj htokens
    cases hparse : parse (blanked before behind) with
    | error e =>
      rw [hparse] at htree
      cases htree
    | ok tree =>
      rw [hparse] at htree
      have htree : ∀ n ∈ tree.nodes, n.PartsNothing atBlank ∧ n.Admits atBlank :=
        of_decide_eq_true htree
      have hparts : ∀ n ∈ tree.nodes, n.PartsNothing atBlank := fun n hn => (htree n hn).1
      have hadmits : ∀ n ∈ tree.nodes, n.Admits atBlank := fun n hn => (htree n hn).2
      obtain ⟨tree', hparse', hends⟩ :=
        comment_is_blank hlex (.inr rfl) hparse (.inr hparts) hadmits
      exact ⟨rfl, tree, tree', rfl, hparts, hadmits, hparse', hends⟩

/-- **Comments that carry meaning:** without a blank beside it a comment glues the numbers that it
parts, which a blank does not. Before a colon and behind a flag a source with one has no tree. -/
theorem comment_is_blank_counterexample :
    Import.succeeds (Import.renderFiles (.ofList [])
      "$x: 1 2; @if $x != (1 2) \x7b @error glued; \x7d") = true ∧
    Import.succeeds (Import.renderFiles (.ofList [])
      "$x: 1/* c */2; @if $x != (1 2) \x7b @error glued; \x7d") = false ∧
    (parse "$x  : 1 !default  ;").isOk = true ∧ (parse "$x /* c */: 1 !default  ;").isOk = false ∧
    (parse "$x  : 1 !default /* c */;").isOk = false := by
  refine ⟨?_, ?_, ?_, ?_, ?_⟩
  all_goals decide +kernel

end Stylesheet
