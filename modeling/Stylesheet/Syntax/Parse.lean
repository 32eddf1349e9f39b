import Stylesheet.Syntax.Node
import Stylesheet.Syntax.ParseError

/-!
# Reading syntax trees

A source becomes a tree that keeps all of its text. Only what evaluation needs is told apart:
rules, at-rules, declarations and the items of a value; a selector stays one text. Every step
takes the lexemes in front of it and returns those that are left, never more than there were.

* `items`: the items of a value, up to a stop that depends on where the value stands.
* `statement`: one statement, or the part of it before its block.
* `statements`: statements up to the end of the source or of the block.
-/

namespace Stylesheet

/-- A result and the lexemes that are left, or an error. -/
abbrev Step (α : Type) (ls : List Lexeme) : Type :=
  Except ParseError (α × { rest : List Lexeme // rest.length ≤ ls.length })

/-- A result and the lexemes that are left, fewer than before, or an error. -/
abbrev Stride (α : Type) (ls : List Lexeme) : Type :=
  Except ParseError (α × { rest : List Lexeme // rest.length < ls.length })

namespace Lexeme

/-- The lexeme as a leaf with all of its text. -/
def leaf (k : Kind) (l : Lexeme) : Node := .leaf k l.text l.span

/-- The lexeme as a leaf without so many characters in front and at the back. -/
def inner (k : Kind) (front back : Nat) (l : Lexeme) : Node :=
  let cs := l.text.toList
  .leaf k (String.ofList ((cs.drop front).take (cs.length - front - back))) l.span

/-- A blank or a comment as a leaf. -/
def trivia (l : Lexeme) : Node :=
  match l.token with
  | .lineComment => l.inner .lineComment 2 0
  | .blockComment => l.inner .blockComment 2 2
  | _ => l.leaf .space

/-- The lexeme as an item of a value that is complete in itself. Semicolons, braces and
closing parentheses are none; what opens a bracket is read before. -/
def item? (l : Lexeme) : Option Node :=
  match l.token with
  | .space | .lineComment | .blockComment => some l.trivia
  | .variable => some (l.inner .variable 1 0)
  | .number => some (l.leaf .number)
  | .stringDouble => some (l.inner .stringDouble 1 1)
  | .stringSingle => some (l.inner .stringSingle 1 1)
  | .hash => some (l.inner .colorHex 1 0)
  | .flag => some (l.inner .flag 1 0)
  | .operator => some (l.leaf .operator)
  | .colon | .comma | .delimiter => some (l.leaf .punctuation)
  | .atKeyword => some (l.inner .atKeyword 1 0)
  | .ident => some (l.leaf .identifier)
  | .semicolon | .openBrace | .closeBrace | .openParen | .closeParen | .interpolationStart => none

end Lexeme

namespace Parse

/-! ### Values -/

/-- Where the items of a value end. -/
inductive Stop where
  /-- At a semicolon, a closing brace, a flag or the end of the source. -/
  | declaration
  /-- At a semicolon, a brace or the end of the source. -/
  | atRule
  /-- At a closing parenthesis. -/
  | closeParen
  /-- At a closing brace. -/
  | closeBrace
  deriving DecidableEq, Repr

namespace Stop

def isAt : Stop → Token → Bool
  | declaration, t => t == .semicolon || t == .closeBrace || t == .flag
  | atRule, t => t == .semicolon || t == .openBrace || t == .closeBrace
  | closeParen, t => t == .closeParen
  | closeBrace, t => t == .closeBrace

/-- What is missing when the source ends before the stop. -/
def missing? : Stop → Option Expected
  | declaration | atRule => none
  | closeParen => some .closeParen
  | closeBrace => some .closeBrace

end Stop

/-- What opens a bracket inside a value. -/
inductive Opening where
  | parentheses (mark : Lexeme)
  | interpolation (mark : Lexeme)
  | call (name mark : Lexeme)
  deriving DecidableEq, Repr

namespace Opening

/-- Where the items in the bracket end. -/
def stop : Opening → Stop
  | parentheses _ | call _ _ => .closeParen
  | interpolation _ => .closeBrace

/-- The token that closes the bracket. -/
def closer : Opening → Token × Expected
  | parentheses _ | call _ _ => (.closeParen, .closeParen)
  | interpolation _ => (.closeBrace, .closeBrace)

/-- The node of the bracket with its items. -/
def node (inside : List Node) (close : Lexeme) : Opening → Node
  | parentheses mark => .sequence .parentheses inside (some ⟨mark.span.start, close.span.stop⟩)
  | interpolation mark => .sequence .interpolation inside (some ⟨mark.span.start, close.span.stop⟩)
  | call name mark =>
      .sequence .function
        [name.leaf .identifier,
          .sequence .arguments inside (some ⟨mark.span.start, close.span.stop⟩)]
        (some ⟨name.span.start, close.span.stop⟩)

end Opening

/-- The bracket that opens at a lexeme, and the lexemes inside. A name opens one if a parenthesis
follows at once. -/
def opening? (l : Lexeme) (ls : List Lexeme) :
    Option (Opening × { rest : List Lexeme // rest.length ≤ ls.length }) :=
  match l.token, ls with
  | .openParen, ls => some (.parentheses l, ⟨ls, Nat.le_refl _⟩)
  | .interpolationStart, ls => some (.interpolation l, ⟨ls, Nat.le_refl _⟩)
  | .ident, mark :: ls =>
      if mark.token = .openParen then some (.call l mark, ⟨ls, Nat.le_succ _⟩) else none
  | _, _ => none

/-- The first lexeme, which must be of the given token. -/
def expect (t : Token × Expected) : (ls : List Lexeme) → Stride Lexeme ls
  | [] => .error (.ended t.2)
  | l :: ls =>
      if l.token = t.1 then .ok (l, ⟨ls, Nat.lt_succ_self _⟩) else .error (.misfit l t.2)

/-- The items of a value up to the stop, which stays in front. -/
def items (stop : Stop) (ls : List Lexeme) : Step (List Node) ls :=
  match ls with
  | [] =>
      match stop.missing? with
      | some e => .error (.ended e)
      | none => .ok ([], ⟨[], Nat.le_refl _⟩)
  | l :: ls =>
      if stop.isAt l.token then .ok ([], ⟨l :: ls, Nat.le_refl _⟩)
      else
        match opening? l ls with
        | some (o, ⟨ls₁, h₁⟩) =>
            match items o.stop ls₁ with
            | .error e => .error e
            | .ok (inside, ⟨ls₂, h₂⟩) =>
                match expect o.closer ls₂ with
                | .error e => .error e
                | .ok (close, ⟨ls₃, h₃⟩) =>
                    match items stop ls₃ with
                    | .error e => .error e
                    | .ok (more, ⟨rest, h⟩) =>
                        .ok (o.node inside close :: more, ⟨rest, by simp only [List.length_cons]; omega⟩)
        | none =>
            match l.item? with
            | none => .error (.misfit l .value)
            | some n =>
                match items stop ls with
                | .error e => .error e
                | .ok (more, ⟨rest, h⟩) => .ok (n :: more, ⟨rest, Nat.le_succ_of_le h⟩)
termination_by ls.length

/-! ### Declarations -/

/-- The range from the first to the last of some nodes. -/
def spanOf (ns : List Node) : Span :=
  let start := ((ns.head?.bind Node.span).map Span.start).getD 0
  ⟨start, ((ns.getLast?.bind Node.span).map Span.stop).getD start⟩

/-- The names, operators and interpolations that make up the name of a property. -/
def propertyParts (ls : List Lexeme) : Step (List Node) ls :=
  match ls with
  | [] => .ok ([], ⟨[], Nat.le_refl _⟩)
  | l :: ls =>
      match l.token with
      | .ident | .operator =>
          match propertyParts ls with
          | .error e => .error e
          | .ok (more, ⟨rest, h⟩) => .ok (l.leaf .identifier :: more, ⟨rest, Nat.le_succ_of_le h⟩)
      | .interpolationStart =>
          match items .closeBrace ls with
          | .error e => .error e
          | .ok (inside, ⟨ls₁, h₁⟩) =>
              match expect (.closeBrace, .closeBrace) ls₁ with
              | .error e => .error e
              | .ok (close, ⟨ls₂, h₂⟩) =>
                  match propertyParts ls₂ with
                  | .error e => .error e
                  | .ok (more, ⟨rest, h⟩) =>
                      .ok ((Opening.interpolation l).node inside close :: more,
                        ⟨rest, by simp only [List.length_cons]; omega⟩)
      | _ => .ok ([], ⟨l :: ls, Nat.le_refl _⟩)
termination_by ls.length

/-- The left side of a declaration: a variable, or the parts of a property name. -/
def property (ls : List Lexeme) : Step Node ls :=
  match ls with
  | [] => .error (.ended .property)
  | l :: ls =>
      if l.token = .variable then
        .ok (.single .property (l.inner .variable 1 0) (some l.span), ⟨ls, Nat.le_succ _⟩)
      else do
        let (parts, rest) ← propertyParts (l :: ls)
        if parts.isEmpty then .error (.misfit l .propertyName)
        else .ok (.sequence .property parts (some (spanOf parts)), rest)

/-- The leading lexemes that pass a test, and the others. -/
def leading (p : Lexeme → Bool) (ls : List Lexeme) :
    List Lexeme × { rest : List Lexeme // rest.length ≤ ls.length } :=
  (ls.takeWhile p, ⟨ls.dropWhile p, (List.dropWhile_suffix p).length_le⟩)

/-- A blank or a flag as a leaf. -/
def flagOrBlank (l : Lexeme) : Node :=
  if l.token = .flag then l.inner .flag 1 0 else l.trivia

/-- The first lexeme if it passes a test, and the others. -/
def leadingOne (p : Lexeme → Bool) :
    (ls : List Lexeme) → List Lexeme × { rest : List Lexeme // rest.length ≤ ls.length }
  | [] => ([], ⟨[], Nat.le_refl _⟩)
  | l :: ls => if p l then ([l], ⟨ls, Nat.le_succ _⟩) else ([], ⟨l :: ls, Nat.le_refl _⟩)

/-- The semicolon behind a declaration. There is none at the end of the source or of a block. -/
def semicolon? : (ls : List Lexeme) → Step (Option Lexeme) ls
  | [] => .ok (none, ⟨[], Nat.le_refl _⟩)
  | l :: ls =>
      if l.token = .semicolon then .ok (some l, ⟨ls, Nat.le_succ _⟩)
      else if l.token = .closeBrace then .ok (none, ⟨l :: ls, Nat.le_refl _⟩)
      else .error (.misfit l .semicolon)

/-- A declaration up to its value, in the order of the source. -/
structure Front where
  /-- Where it starts. -/
  start : Nat
  property : Node
  blanks : List Lexeme
  colon : Lexeme
  /-- The blank behind the colon, if there is one. -/
  blank : List Lexeme

/-- What a declaration is read as, in the order of the source. -/
structure Pieces extends Front where
  /-- The items behind the colon, with the blanks behind the last. -/
  found : List Node
  flags : List Lexeme
  semicolon : Option Lexeme

namespace Pieces

/-- The items of the value: those found, without blanks at the end. -/
def value (p : Pieces) : List Node := (p.found.reverse.dropWhile (·.is .space)).reverse

/-- The blanks behind the value. -/
def trailing (p : Pieces) : List Node := (p.found.reverse.takeWhile (·.is .space)).reverse

/-- The children of the declaration but for the semicolon. -/
def parts (p : Pieces) : List Node :=
  p.property :: p.blanks.map Lexeme.trivia ++ [p.colon.leaf .punctuation] ++
    p.blank.map Lexeme.trivia ++ [.sequence .value p.value (some (spanOf p.value))] ++ p.trailing ++
    p.flags.map flagOrBlank

/-- The declaration with its semicolon, if there is one. -/
def node (p : Pieces) : Node :=
  match p.semicolon with
  | some l =>
      .sequence .declaration (p.parts ++ [l.leaf .punctuation]) (some ⟨p.start, l.span.stop⟩)
  | none =>
      let stop := ((p.parts.getLast?.bind Node.span).map Span.stop).getD p.start
      .sequence .declaration p.parts (some ⟨p.start, stop⟩)

end Pieces

/-- What stands before the value of a declaration. -/
def front (ls : List Lexeme) : Stride Front ls :=
  match property ls with
  | .error e => .error e
  | .ok (property, ⟨ls₁, h₁⟩) =>
      match leading (·.token == .space) ls₁ with
      | (blanks, ⟨ls₂, h₂⟩) =>
          match expect (.colon, .colon) ls₂ with
          | .error e => .error e
          | .ok (colon, ⟨ls₃, h₃⟩) =>
              match leadingOne (·.token == .space) ls₃ with
              | (blank, ⟨ls₄, h₄⟩) =>
                  let start := (ls.head?.map (·.span.start)).getD 0
                  .ok (⟨start, property, blanks, colon, blank⟩, ⟨ls₄, by omega⟩)

/-- A declaration with its semicolon, if one follows. Blanks at the end of the value and the flags
stand after the value, not in it. -/
def declaration (ls : List Lexeme) : Stride Node ls :=
  match front ls with
  | .error e => .error e
  | .ok (front, ⟨ls₁, h₁⟩) =>
      match items .declaration ls₁ with
      | .error e => .error e
      | .ok (found, ⟨ls₂, h₂⟩) =>
          match leading (fun l => l.token == .flag || l.token == .space) ls₂ with
          | (flags, ⟨ls₃, h₃⟩) =>
              let pieces (semicolon : Option Lexeme) : Pieces := ⟨front, found, flags, semicolon⟩
              if (pieces none).value.isEmpty then .error (.here ls₂ .value)
              else
                match semicolon? ls₃ with
                | .error e => .error e
                | .ok (semicolon, ⟨rest, h⟩) => .ok ((pieces semicolon).node, ⟨rest, by omega⟩)

/-! ### Statements -/

/-- A statement, or what stands before its block, the opening brace read. -/
inductive Head where
  | whole (n : Node)
  | rule (selector : List Lexeme) (brace : Lexeme)
  | atRule (keyword : Lexeme) (params : List Node) (brace : Lexeme)

namespace Head

/-- The selector of a rule as one text. -/
def selectorNode (ls : List Lexeme) : Node :=
  let text := String.join (ls.map Lexeme.text)
  match ls.head?, ls.getLast? with
  | some a, some b => .leaf .selector text (some ⟨a.span.start, b.span.stop⟩)
  | _, _ => .leaf .selector text none

/-- The statement with its block. -/
def withBlock (inside : List Node) (close : Lexeme) : Head → Node
  | whole n => n
  | rule selector brace =>
      let sel := selectorNode selector
      .sequence .rule
        [sel, .sequence .block inside (some ⟨brace.span.start, close.span.stop⟩)]
        (some ⟨(sel.span.map Span.start).getD 0, close.span.stop⟩)
  | atRule keyword params brace =>
      .sequence .atRule
        (keyword.inner .atKeyword 1 0 :: params ++
          [.sequence .block inside (some ⟨brace.span.start, close.span.stop⟩)])
        (some ⟨keyword.span.start, close.span.stop⟩)

end Head

/-- The lexemes before the opening brace of a block, the brace, and the lexemes after it. None if
a semicolon or a closing brace comes first, interpolations left aside. -/
def selector? (depth : Nat) : (ls : List Lexeme) →
    Option (List Lexeme × Lexeme × { rest : List Lexeme // rest.length < ls.length })
  | [] => none
  | l :: ls =>
      let next (depth : Nat) :
          Option (List Lexeme × Lexeme × { rest : List Lexeme // rest.length < (l :: ls).length }) :=
        (selector? depth ls).map fun (before, brace, ⟨rest, h⟩) =>
          (l :: before, brace, ⟨rest, Nat.lt_succ_of_lt h⟩)
      match l.token, depth with
      | .openBrace, _ => some ([], l, ⟨ls, Nat.lt_succ_self _⟩)
      | .interpolationStart, d => next (d + 1)
      | .closeBrace, d + 1 => next d
      | .closeBrace, 0 => none
      | .semicolon, _ => none
      | _, d => next d

/-- An at-rule without a block, whose parts end at the given offset. -/
def blockless (keyword : Lexeme) (parts : List Node) (stop : Nat) : Node :=
  .sequence .atRule (keyword.inner .atKeyword 1 0 :: parts) (some ⟨keyword.span.start, stop⟩)

/-- Where an at-rule ends that has neither a semicolon nor a block: before what follows, or with
its last part. -/
def openStop (keyword : Lexeme) (params : List Node) : Option Lexeme → Nat
  | some next => next.span.start
  | none =>
      (((keyword.inner .atKeyword 1 0 :: params).getLast?.bind Node.span).map Span.stop).getD
        keyword.span.stop

/-- An at-rule up to its semicolon or its opening brace. -/
def atRule (keyword : Lexeme) (ls : List Lexeme) : Step Head ls :=
  match items .atRule ls with
  | .error e => .error e
  | .ok (params, ⟨rest, h⟩) =>
      match rest, h with
      | [], h => .ok (.whole (blockless keyword params (openStop keyword params none)), ⟨[], h⟩)
      | l :: rest, h =>
          if l.token = .openBrace then
            .ok (.atRule keyword params l, ⟨rest, Nat.le_of_succ_le h⟩)
          else if l.token = .semicolon then
            .ok (.whole (blockless keyword (params ++ [l.leaf .punctuation]) l.span.stop),
              ⟨rest, Nat.le_of_succ_le h⟩)
          else
            .ok (.whole (blockless keyword params (openStop keyword params (some l))),
              ⟨l :: rest, h⟩)

/-- A declaration as a statement. -/
def plainDeclaration (ls : List Lexeme) : Stride Head ls :=
  match declaration ls with
  | .error e => .error e
  | .ok (n, rest) => .ok (.whole n, rest)

/-- The statement that starts with a lexeme, up to its block if it has one. -/
def statement (l : Lexeme) (ls : List Lexeme) : Stride Head (l :: ls) :=
  match l.token with
  | .space | .lineComment | .blockComment => .ok (.whole l.trivia, ⟨ls, Nat.lt_succ_self _⟩)
  | .semicolon => .ok (.whole (l.leaf .punctuation), ⟨ls, Nat.lt_succ_self _⟩)
  | .atKeyword =>
      match atRule l ls with
      | .error e => .error e
      | .ok (head, ⟨rest, h⟩) => .ok (head, ⟨rest, Nat.lt_succ_of_le h⟩)
  | .variable => plainDeclaration (l :: ls)
  | _ =>
      match selector? 0 (l :: ls) with
      | some (before, brace, rest) => .ok (.rule before brace, rest)
      | none => plainDeclaration (l :: ls)

/-- Statements up to the end of the source, or up to the closing brace of the block, which stays
in front. -/
def statements (inBlock : Bool) (ls : List Lexeme) : Step (List Node) ls :=
  match ls with
  | [] => if inBlock then .error (.ended .closeBrace) else .ok ([], ⟨[], Nat.le_refl _⟩)
  | l :: ls =>
      if l.token = .closeBrace then
        if inBlock then .ok ([], ⟨l :: ls, Nat.le_refl _⟩) else .error (.misfit l .statement)
      else
        match statement l ls with
        | .error e => .error e
        | .ok (.whole n, ⟨ls₁, h₁⟩) =>
            match statements inBlock ls₁ with
            | .error e => .error e
            | .ok (more, ⟨rest, h⟩) => .ok (n :: more, ⟨rest, by omega⟩)
        | .ok (head, ⟨ls₁, h₁⟩) =>
            match statements true ls₁ with
            | .error e => .error e
            | .ok (inside, ⟨ls₂, h₂⟩) =>
                match expect (.closeBrace, .closeBrace) ls₂ with
                | .error e => .error e
                | .ok (close, ⟨ls₃, h₃⟩) =>
                    match statements inBlock ls₃ with
                    | .error e => .error e
                    | .ok (more, ⟨rest, h⟩) =>
                        .ok (head.withBlock inside close :: more, ⟨rest, by omega⟩)
termination_by ls.length
decreasing_by all_goals simp only [List.length_cons] at *; omega

end Parse

/-- The tree of a source. -/
def parse (source : String) : Except ParseError Node :=
  match tokenize source with
  | .error offset => .error (.unrecognized offset)
  | .ok lexemes =>
      match Parse.statements false lexemes with
      | .error e => .error e
      | .ok (children, _) => .ok (.sequence .stylesheet children (some ⟨0, byteLength source⟩))

end Stylesheet
