import Stylesheet.Proofs.Render.JournaledFiles
import Stylesheet.Proofs.Syntax.Tiling

/-!
# Numbers of sources

The lexer tells the exponent of a number from its unit by a pattern, and the reader cuts the text of
the number again by hand. Both agree on all numbers of all sources, so no rendering ends for a
number that cannot be read.

* `Lexeme.Read`: a number of a source and how it is read.
* `numbers_read`: all numbers of sources are read so.
-/

namespace Stylesheet

/-- **A number is read as it was cut off:** neither the number nor its unit could be longer at its
place in the source, the groups of its text are those that the pattern has, and its value is that of
the mantissa and the exponent, with the unit if there is one. -/
structure Lexeme.Read (source : String) (l : Lexeme) (g : NumberGroups) : Prop where
  longest : ∃ before behind : String,
    source = before ++ l.text ++ behind ∧
    l.span = ⟨byteLength before, byteLength before + byteLength l.text⟩ ∧
    ∀ more rest : String, behind = more ++ rest → more ≠ "" →
      ¬ Token.number.pattern.Matches (l.text ++ more).toList ∧
        ¬ Token.unit.optional.Matches (g.unit ++ more.toList)
  groups : Number.Reads l.text g
  value : ∃ x, Number.read? (g.mantissa ++ g.exponent) = some x ∧
    Expr.ofNumber l.text =
      .literal (.number x (if g.unit = [] then none else some (String.ofList g.unit)))

/-- The longest match of the pattern of numbers is read by its groups. -/
theorem Lexeme.Longest.read {source : String} {l : Lexeme} (h : l.Longest source)
    (ht : l.token = .number) : ∃ g, l.Read source g := by
  obtain ⟨before, behind, hsource, hspan, hkind, hlong⟩ := h
  have hmatches : Token.number.pattern.Matches l.text.toList := (hkind .number).2 ht.symm
  obtain ⟨g, hreads⟩ := Number.reads_of_matches hmatches
  obtain ⟨x, hx, hliteral⟩ := hreads.literal
  refine ⟨g, ⟨before, behind, hsource, hspan, fun more rest hmore hne => ?_⟩, hreads, x, hx, ?_⟩
  · have hnumber := hlong more rest hmore hne .number
    refine ⟨hnumber, fun hunit => hnumber ?_⟩
    -- with a longer unit the number would be longer
    have hfit : NumberGroups.Fit ⟨g.mantissa, g.exponent, g.unit ++ more.toList⟩ :=
      ⟨hreads.fit.mantissa, hreads.fit.exponent, hunit⟩
    refine NumberGroups.matches_number_iff.2 ⟨_, hfit, ?_⟩
    rw [String.toList_append, ← hreads.spelled]
    exact (List.append_assoc ..).symm
  · unfold Expr.ofNumber
    rw [hliteral]

/-- **The lexer and the reader agree on numbers:** every number among the lexemes of a source is read
as it was cut off, every number of the tree is one of them, and no rendering of a source, whatever
files it loads, ends for a number that cannot be read. -/
theorem numbers_read {σ : Type} [Log.Sink σ] (limits : Limits) (h : Host σ) (source : String)
    (g : σ) :
    (∀ ls, tokenize source = .ok ls → ∀ l ∈ ls, l.token = .number → ∃ gs, l.Read source gs) ∧
    (∀ tree, parse source = .ok tree → ∃ ls, tokenize source = .ok ls ∧
      ∀ text span, Node.leaf .number text span ∈ tree.nodes →
        ∃ l ∈ ls, l.token = .number ∧ l.text = text) ∧
    ∀ text, (render limits h source g).1 ≠ .error (.fault (.invalidNumber text)) := by
  refine ⟨fun ls hls l hl ht => ?_, fun tree htree => ?_, fun text herror => ?_⟩
  · exact (Lexeme.longest_of_tokenize hls l hl).read ht
  · obtain ⟨ls, hls, hdrawn⟩ := drawn_of_parse htree
    refine ⟨ls, hls, fun text span hmem => hdrawn text span ?_⟩
    rwa [Node.nodesAll, Node.nodesAll, List.append_nil]
  · obtain ⟨es, -, -, -, hexcluded⟩ := Journal.render_sound Value.closed_true limits h source g 0
    cases hexcluded _ herror

/-- An exponent before a unit, a unit that starts like an exponent, and an exponent with a sign. -/
theorem numbers_read_exponents :
    let _ : Log.Sink Unit := ⟨fun _ _ => ()⟩
    let host : Host Unit := ⟨fun _ _ => pure (.error ""), .empty, fun _ => .error .notFound⟩
    let source := "$x: 1e3em 2e .5E-2%;"
    (∃ ls, tokenize source = .ok ls ∧
      (ls.filter (·.token = .number)).map (fun l => (l.text, Number.cut l.text.toList)) =
        [("1e3em", ("1e3".toList, "em".toList)), ("2e", ("2".toList, "e".toList)),
          (".5E-2%", (".5E-2".toList, "%".toList))] ∧
      ∀ l ∈ ls, l.token = .number → ∃ gs, l.Read source gs) ∧
    (∃ tree, parse source = .ok tree ∧ ∃ ls, tokenize source = .ok ls ∧
      ∀ text span, Node.leaf .number text span ∈ tree.nodes →
        ∃ l ∈ ls, l.token = .number ∧ l.text = text) ∧
    ∀ text, (render ⟨0, 0, 0⟩ host source ()).1 ≠ .error (.fault (.invalidNumber text)) := by
  intro _ host source
  have hnumbers : (tokenize source).toOption.map (fun ls =>
      (ls.filter (·.token = .number)).map fun l => (l.text, Number.cut l.text.toList)) =
      some [("1e3em", ("1e3".toList, "em".toList)), ("2e", ("2".toList, "e".toList)),
        (".5E-2%", (".5E-2".toList, "%".toList))] := by
    decide +kernel
  have hparses : (parse source).isOk = true := by decide +kernel
  obtain ⟨hread, hdrawn, hrender⟩ := numbers_read ⟨0, 0, 0⟩ host source ()
  refine ⟨?_, ?_, hrender⟩
  · cases hls : tokenize source with
    | error i =>
      rw [hls] at hnumbers
      cases hnumbers
    | ok ls =>
      rw [hls] at hnumbers
      exact ⟨ls, rfl, Option.some.inj hnumbers, hread ls hls⟩
  · cases htree : parse source with
    | error e =>
      rw [htree] at hparses
      cases hparses
    | ok tree => exact ⟨tree, rfl, hdrawn tree htree⟩

end Stylesheet
