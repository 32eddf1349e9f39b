import Stylesheet.Syntax.Parse

/-!
# The grammar of values and declarations

What the readers of values accept, as relations between the lexemes that are read and the nodes
that come out. A relation does not speak of the lexemes that are left; the little that a reader
asks of them is a condition of its own (`Stop.Ends`, `Closes`).

* `items_iff`: the items of a value.
* `property_sound`, `property_complete`: the left side of a declaration.
* `declaration_iff`: a declaration, cut into its `Pieces`.
-/

namespace Stylesheet

/-- The token in front of some lexemes. -/
def Lexeme.first (ls : List Lexeme) : Option Token := ls.head?.map Lexeme.token

@[simp] theorem Lexeme.first_nil : Lexeme.first [] = none := rfl

@[simp] theorem Lexeme.first_cons (l : Lexeme) (ls : List Lexeme) :
    Lexeme.first (l :: ls) = some l.token := rfl

theorem Lexeme.first_append {ls : List Lexeme} (h : ls ≠ []) (ms : List Lexeme) :
    Lexeme.first (ls ++ ms) = Lexeme.first ls := by
  cases ls with
  | nil => exact absurd rfl h
  | cons l ls => rfl

namespace Parse

open Lexeme

/-! ### Brackets -/

namespace Opening

/-- The lexemes that open the bracket. -/
def marks : Opening → List Lexeme
  | parentheses m | interpolation m => [m]
  | call n m => [n, m]

/-- The lexemes are of the tokens that open such a bracket. -/
def Fits : Opening → Prop
  | parentheses m => m.token = .openParen
  | interpolation m => m.token = .interpolationStart
  | call n m => n.token = .ident ∧ m.token = .openParen

theorem stop_eq (o : Opening) : ∀ t, o.stop.isAt t = true ↔ t = o.closer.1 := by
  intro t
  cases o <;> simp [stop, closer, Stop.isAt]

end Opening

theorem opening?_eq_some {l : Lexeme} {ls : List Lexeme} {o : Opening}
    {r : { rest : List Lexeme // rest.length ≤ ls.length }} :
    opening? l ls = some (o, r) ↔ o.Fits ∧ l :: ls = o.marks ++ r.1 := by
  obtain ⟨rest, hr⟩ := r
  obtain ⟨t, text, span⟩ := l
  cases t
  case ident =>
    cases ls with
    | nil => cases o <;> simp [opening?, Opening.Fits, Opening.marks] <;> grind
    | cons m ms =>
      by_cases hm : m.token = .openParen
      · cases o <;> simp [opening?, Opening.Fits, Opening.marks, hm] <;> grind
      · cases o <;> simp [opening?, Opening.Fits, Opening.marks, hm] <;> grind
  all_goals cases o <;> simp [opening?, Opening.Fits, Opening.marks] <;> grind

/-- A lexeme that is an item by itself opens no bracket unless it is a name before a parenthesis. -/
theorem opening?_eq_none {l : Lexeme} {ls : List Lexeme} {n : Node} (h : l.item? = some n) :
    opening? l ls = none ↔ (l.token = .ident → first ls ≠ some .openParen) := by
  obtain ⟨t, text, span⟩ := l
  cases t <;> simp_all [opening?, item?]
  cases ls with
  | nil => simp
  | cons m ms => by_cases hm : m.token = .openParen <;> simp [hm]

theorem expect_iff {t : Token × Expected} {ls : List Lexeme} {l : Lexeme}
    {r : { rest : List Lexeme // rest.length < ls.length }} :
    expect t ls = .ok (l, r) ↔ ls = l :: r.1 ∧ l.token = t.1 := by
  obtain ⟨rest, hr⟩ := r
  cases ls with
  | nil => simp [expect]
  | cons m ms =>
    simp only [expect]
    split
    · simp only [Except.ok.injEq, Prod.mk.injEq, Subtype.mk.injEq, List.cons.injEq]
      constructor
      · rintro ⟨rfl, rfl⟩; exact ⟨⟨rfl, rfl⟩, by assumption⟩
      · rintro ⟨⟨rfl, rfl⟩, -⟩; exact ⟨rfl, rfl⟩
    · simp only [reduceCtorEq, List.cons.injEq, false_iff, not_and, and_imp]
      rintro rfl -; assumption

theorem expect_ok {t : Token × Expected} {l : Lexeme} (h : l.token = t.1) (ls : List Lexeme) :
    expect t (l :: ls) = .ok (l, ⟨ls, Nat.lt_succ_self _⟩) := expect_iff.2 ⟨rfl, h⟩

/-! ### Values -/

/-- What may stand behind the items of a value. -/
def Stop.Ends (stop : Stop) : List Lexeme → Prop
  | [] => stop.missing? = none
  | l :: _ => stop.isAt l.token = true

/-- The items of a value that stops at `stop`. -/
inductive Items : Stop → List Lexeme → List Node → Prop
  | nil {stop : Stop} : Items stop [] []
  /-- A lexeme by itself. -/
  | leaf {stop : Stop} {l : Lexeme} {n : Node} {ls : List Lexeme} {ns : List Node} :
      stop.isAt l.token = false → l.item? = some n → (l.token = .ident → first ls ≠ some .openParen) →
        Items stop ls ns → Items stop (l :: ls) (n :: ns)
  | bracket {stop : Stop} {o : Opening} {ms ls : List Lexeme} {inside ns : List Node}
      {close : Lexeme} :
      o.Fits → Items o.stop ms inside → close.token = o.closer.1 → Items stop ls ns →
        Items stop (o.marks ++ (ms ++ close :: ls)) (o.node inside close :: ns)

theorem Stop.isAt_opener {o : Opening} (h : o.Fits) (stop : Stop) :
    ∀ l ∈ o.marks.head?, stop.isAt l.token = false := by
  cases o <;> cases stop <;> simp_all [Opening.Fits, Opening.marks, Stop.isAt]

theorem items_sound {stop : Stop} {ls : List Lexeme} {ns : List Node}
    {r : { rest : List Lexeme // rest.length ≤ ls.length }} (h : items stop ls = .ok (ns, r)) :
    ∃ read, ls = read ++ r.1 ∧ Items stop read ns ∧ stop.Ends r.1 := by
  fun_induction items stop ls generalizing ns with
  | case1 => cases h
  | case2 stop hm =>
    cases h
    exact ⟨[], rfl, .nil, hm⟩
  | case3 stop l ls hs =>
    cases h
    exact ⟨[], rfl, .nil, hs⟩
  | case4 => cases h
  | case5 => cases h
  | case6 => cases h
  | case7 stop l ls hs o ls₁ h₁ ho inside ls₂ h₂ hi close ls₃ h₃ hc more rest hle hmore ih₁ ih₂ =>
    cases h
    obtain ⟨read₁, h₁', hread₁, -⟩ := ih₁ hi
    obtain ⟨read₂, h₂', hread₂, hend⟩ := ih₂ hmore
    obtain ⟨hfit, hmarks⟩ := opening?_eq_some.1 ho
    obtain ⟨hcons, hclose⟩ := expect_iff.1 hc
    refine ⟨o.marks ++ (read₁ ++ close :: read₂), ?_, .bracket hfit hread₁ hclose hread₂, hend⟩
    simp only at h₁' h₂' hcons hmarks ⊢
    rw [hmarks, h₁', hcons, h₂']
    simp
  | case8 => cases h
  | case9 => cases h
  | case10 stop l ls hs ho n hn more rest hle hmore ih =>
    cases h
    obtain ⟨read, h', hread, hend⟩ := ih hmore
    refine ⟨l :: read, congrArg (l :: ·) h', .leaf (by simpa using hs) hn ?_ hread, hend⟩
    intro ht hf
    refine (opening?_eq_none hn).1 ho ht ?_
    rw [h']
    cases read with
    | nil => cases hf
    | cons m ms => exact hf

/-- What ends the items of a value opens no bracket. -/
theorem Stop.Ends.first_ne {stop : Stop} {ls : List Lexeme} (h : stop.Ends ls) :
    first ls ≠ some .openParen := by
  cases ls with
  | nil => simp
  | cons l ls =>
    intro hf
    simp only [first_cons, Option.some.injEq] at hf
    cases stop <;> simp [Stop.Ends, Stop.isAt, hf] at h

theorem items_complete {stop : Stop} {read : List Lexeme} {ns : List Node}
    (h : Items stop read ns) {ls rest : List Lexeme} (hls : ls = read ++ rest)
    (hend : stop.Ends rest) : ∃ hle, items stop ls = .ok (ns, ⟨rest, hle⟩) := by
  induction h generalizing ls rest with
  | nil =>
    subst hls
    refine ⟨Nat.le_refl _, ?_⟩
    cases ls with
    | nil => simp only [items, show Stop.missing? _ = none from hend]
    | cons l ls => simp only [items, show Stop.isAt _ _ = true from hend, if_true]
  | @leaf stop l n read ns hs hn hp _ ih =>
    obtain ⟨hle, hread⟩ := ih rfl hend
    have ho : opening? l (read ++ rest) = none := by
      refine (opening?_eq_none hn).2 fun ht => ?_
      cases read with
      | nil => exact hend.first_ne
      | cons m ms => exact hp ht
    rw [List.cons_append] at hls
    subst hls
    refine ⟨Nat.le_succ_of_le hle, ?_⟩
    rw [items, if_neg (by simp [hs])]
    simp only [ho, hn, hread]
  | @bracket stop o ms read inside ns close hfit _ hclose _ ih₁ ih₂ =>
    obtain ⟨hle₂, hread⟩ := ih₂ rfl hend
    obtain ⟨hle₁, hms⟩ := ih₁ (rfl : ms ++ close :: (read ++ rest) = _) ((o.stop_eq _).2 hclose)
    obtain ⟨l, tail, hmarks⟩ : ∃ l tail, o.marks = l :: tail := by
      cases o <;> exact ⟨_, _, rfl⟩
    have hs : stop.isAt l.token = false := Stop.isAt_opener hfit stop l (by simp [hmarks])
    have ho : opening? l (tail ++ (ms ++ close :: (read ++ rest))) =
        some (o, ⟨ms ++ close :: (read ++ rest), by simp⟩) :=
      opening?_eq_some.2 ⟨hfit, by rw [hmarks]; rfl⟩
    have hc := expect_ok hclose (read ++ rest)
    have hsplit : o.marks ++ (ms ++ close :: read) ++ rest =
        l :: (tail ++ (ms ++ close :: (read ++ rest))) := by simp [hmarks]
    rw [hsplit] at hls
    subst hls
    refine ⟨by simp only [List.length_cons, List.length_append] at hle₂ ⊢; omega, ?_⟩
    rw [items, if_neg (by simp [hs])]
    simp only [ho, hms, hc, hread]

/-- Items can be cut anywhere, and their lexemes with them. -/
theorem Items.split {stop : Stop} {ls : List Lexeme} {ns₁ ns₂ : List Node}
    (h : Items stop ls (ns₁ ++ ns₂)) :
    ∃ ls₁ ls₂, ls = ls₁ ++ ls₂ ∧ Items stop ls₁ ns₁ ∧ Items stop ls₂ ns₂ := by
  generalize hns : ns₁ ++ ns₂ = ns at h
  induction h generalizing ns₁ with
  | nil =>
    obtain ⟨rfl, rfl⟩ := List.append_eq_nil_iff.1 hns
    exact ⟨[], [], rfl, .nil, .nil⟩
  | @leaf stop l n ls ns hs hn hp h ih =>
    rcases ns₁ with _ | ⟨n₁, ns₁⟩
    · rw [List.nil_append] at hns
      exact ⟨[], l :: ls, rfl, .nil, hns ▸ .leaf hs hn hp h⟩
    · obtain ⟨rfl, htail⟩ := List.cons.inj hns
      obtain ⟨ls₁, ls₂, rfl, h₁, h₂⟩ := ih htail
      refine ⟨l :: ls₁, ls₂, rfl, .leaf hs hn (fun ht hf => hp ht ?_) h₁, h₂⟩
      cases ls₁ with
      | nil => cases hf
      | cons m ls₁ => exact hf
  | @bracket stop o ms ls inside ns close hfit hin hclose h _ ih =>
    rcases ns₁ with _ | ⟨n₁, ns₁⟩
    · rw [List.nil_append] at hns
      exact ⟨[], _, rfl, .nil, hns ▸ .bracket hfit hin hclose h⟩
    · obtain ⟨rfl, htail⟩ := List.cons.inj hns
      obtain ⟨ls₁, ls₂, rfl, h₁, h₂⟩ := ih htail
      exact ⟨o.marks ++ (ms ++ close :: ls₁), ls₂, by simp, .bracket hfit hin hclose h₁, h₂⟩

/-- Items one behind the other. -/
theorem Items.append {stop : Stop} {ls ms : List Lexeme} {ns ns' : List Node}
    (h : Items stop ls ns) (hm : Items stop ms ns') (hfirst : first ms ≠ some .openParen) :
    Items stop (ls ++ ms) (ns ++ ns') := by
  induction h with
  | nil => exact hm
  | @leaf stop l n ls ns hat hn hp _ ih =>
    refine .leaf hat hn (fun ht => ?_) (ih hm)
    cases ls with
    | nil => exact hfirst
    | cons l' ls => exact hp ht
  | bracket hfit hin hclose _ _ ih =>
    rw [List.append_assoc, List.append_assoc, List.cons_append]
    exact .bracket hfit hin hclose (ih hm)

/-- **The items of a value** are what the grammar says, up to what ends them. -/
theorem items_iff {stop : Stop} {ls : List Lexeme} {ns : List Node}
    {r : { rest : List Lexeme // rest.length ≤ ls.length }} :
    items stop ls = .ok (ns, r) ↔ ∃ read, ls = read ++ r.1 ∧ Items stop read ns ∧ stop.Ends r.1 :=
  ⟨items_sound, fun ⟨_, hls, hread, hend⟩ => (items_complete hread hls hend).2⟩

/-! ### Declarations -/

/-- The parts of the name of a property. -/
inductive PropertyParts : List Lexeme → List Node → Prop
  | nil : PropertyParts [] []
  | word {l : Lexeme} {ls : List Lexeme} {ns : List Node} :
      l.token = .ident ∨ l.token = .operator → PropertyParts ls ns →
        PropertyParts (l :: ls) (l.leaf .identifier :: ns)
  | interpolation {mark close : Lexeme} {ms ls : List Lexeme} {inside ns : List Node} :
      mark.token = .interpolationStart → Items .closeBrace ms inside → close.token = .closeBrace →
        PropertyParts ls ns →
          PropertyParts (mark :: (ms ++ close :: ls))
            ((Opening.interpolation mark).node inside close :: ns)

/-- Nothing in front that would be one more part of a name. -/
def EndsParts (ls : List Lexeme) : Prop :=
  ∀ t ∈ first ls, t ≠ .ident ∧ t ≠ .operator ∧ t ≠ .interpolationStart

/-- The left side of a declaration. -/
inductive Property : List Lexeme → Node → Prop
  | ofVariable {l : Lexeme} :
      l.token = .variable → Property [l] (.single .property (l.inner .variable 1 0) (some l.span))
  | ofParts {ls : List Lexeme} {ns : List Node} :
      PropertyParts ls ns → ns ≠ [] → Property ls (.sequence .property ns (some (spanOf ns)))

theorem propertyParts_sound {ls : List Lexeme} {ns : List Node}
    {r : { rest : List Lexeme // rest.length ≤ ls.length }} (h : propertyParts ls = .ok (ns, r)) :
    ∃ read, ls = read ++ r.1 ∧ PropertyParts read ns := by
  fun_induction propertyParts ls generalizing ns with
  | case1 => cases h; exact ⟨[], rfl, .nil⟩
  | case2 => cases h
  | case3 l ls ht more rest hle hmore ih | case5 l ls ht more rest hle hmore ih =>
    cases h
    obtain ⟨read, h', hread⟩ := ih hmore
    exact ⟨l :: read, congrArg (l :: ·) h', .word (by simp [ht]) hread⟩
  | case4 => cases h
  | case6 => cases h
  | case7 => cases h
  | case8 => cases h
  | case9 mark ls ht inside ls₁ h₁ hi close ls₂ h₂ hc more rest hle hmore ih =>
    cases h
    obtain ⟨read₁, h₁', hread₁, -⟩ := items_sound hi
    obtain ⟨read₂, h₂', hread₂⟩ := ih hmore
    obtain ⟨hcons, hclose⟩ := expect_iff.1 hc
    refine ⟨mark :: (read₁ ++ close :: read₂), ?_, .interpolation ht hread₁ hclose hread₂⟩
    simp only at h₁' h₂' hcons ⊢
    rw [h₁', hcons, h₂']
    simp
  | case10 => cases h; exact ⟨[], rfl, .nil⟩

theorem propertyParts_complete {read : List Lexeme} {ns : List Node} (h : PropertyParts read ns)
    {ls rest : List Lexeme} (hls : ls = read ++ rest) (hend : EndsParts rest) :
    ∃ hle, propertyParts ls = .ok (ns, ⟨rest, hle⟩) := by
  induction h generalizing ls rest with
  | nil =>
    subst hls
    refine ⟨Nat.le_refl _, ?_⟩
    cases ls with
    | nil => rw [propertyParts]
    | cons l ls =>
      obtain ⟨h1, h2, h3⟩ := hend l.token rfl
      rw [propertyParts]
      split <;> first | rfl | contradiction
  | @word l read ns ht _ ih =>
    obtain ⟨hle, hread⟩ := ih rfl hend
    rw [List.cons_append] at hls
    subst hls
    refine ⟨Nat.le_succ_of_le hle, ?_⟩
    rw [propertyParts]
    rcases ht with ht | ht <;> simp only [ht, hread]
  | @interpolation mark close ms read inside ns hmark hi hclose _ ih =>
    obtain ⟨hle₂, hread⟩ := ih rfl hend
    obtain ⟨hle₁, hms⟩ := items_complete hi (rfl : ms ++ close :: (read ++ rest) = _)
      (by simp [Stop.Ends, Stop.isAt, hclose])
    have hc := expect_ok (t := (.closeBrace, .closeBrace)) hclose (read ++ rest)
    have hsplit : mark :: (ms ++ close :: read) ++ rest = mark :: (ms ++ close :: (read ++ rest)) := by
      simp
    rw [hsplit] at hls
    subst hls
    refine ⟨by simp only [List.length_cons, List.length_append] at hle₂ ⊢; omega, ?_⟩
    rw [propertyParts]
    simp only [hmark, hms, hc, hread]

theorem property_sound {ls : List Lexeme} {n : Node}
    {r : { rest : List Lexeme // rest.length ≤ ls.length }} (h : property ls = .ok (n, r)) :
    ∃ read, ls = read ++ r.1 ∧ Property read n := by
  cases ls with
  | nil => cases h
  | cons l ls =>
    simp only [property] at h
    split at h
    · rename_i ht
      cases h
      exact ⟨[l], rfl, .ofVariable ht⟩
    · simp only [bind, Except.bind] at h
      split at h
      · cases h
      · rename_i v hv
        split at h
        · cases h
        · rename_i hne
          cases h
          obtain ⟨read, hread, hp⟩ := propertyParts_sound hv
          exact ⟨read, hread, .ofParts hp (by simpa using hne)⟩

theorem PropertyParts.first_ne {ls : List Lexeme} {ns : List Node} (h : PropertyParts ls ns)
    (hne : ns ≠ []) : ∃ l ms, ls = l :: ms ∧
      (l.token = .ident ∨ l.token = .operator ∨ l.token = .interpolationStart) := by
  cases h with
  | nil => exact absurd rfl hne
  | word ht _ => exact ⟨_, _, rfl, ht.elim .inl fun h => .inr (.inl h)⟩
  | interpolation ht _ _ _ => exact ⟨_, _, rfl, .inr (.inr ht)⟩

theorem property_complete {read : List Lexeme} {n : Node} (h : Property read n)
    {ls rest : List Lexeme} (hls : ls = read ++ rest) (hend : EndsParts rest) :
    ∃ hle, property ls = .ok (n, ⟨rest, hle⟩) := by
  cases h with
  | ofVariable ht =>
    subst hls
    refine ⟨by simp, ?_⟩
    simp [property, ht]
  | ofParts hp hne =>
    obtain ⟨l, ms, rfl, ht⟩ := hp.first_ne hne
    rw [List.cons_append] at hls
    subst hls
    obtain ⟨hle, hparts⟩ := propertyParts_complete hp (rfl : l :: (ms ++ rest) = _) hend
    refine ⟨hle, ?_⟩
    have hv : l.token ≠ .variable := by
      rcases ht with ht | ht | ht <;> simp [ht]
    simp only [property, hv, if_false, bind, Except.bind]
    rw [hparts]
    simp [hne]

/-- What may stand behind a statement that has no end of its own. -/
def Closes (next : Option Token) : Prop := ∀ t ∈ next, t = .closeBrace

/-- The lexemes before a value, the left side being read from the given ones. -/
def Front.lexemes (p : Front) (name : List Lexeme) : List Lexeme :=
  name ++ (p.blanks ++ p.colon :: p.blank)

/-- The front of a declaration before the given token. -/
structure Front.Fits (p : Front) (name : List Lexeme) (next : Option Token) : Prop where
  start : ∀ l ∈ name.head?, p.start = l.span.start
  property : Property name p.property
  blanks : ∀ l ∈ p.blanks, l.token = .space
  colon : p.colon.token = .colon
  blank : (p.blank = [] ∧ next ≠ some .space) ∨ ∃ l, p.blank = [l] ∧ l.token = .space

namespace Pieces

/-- The lexemes of a declaration whose left side and whose items are read from the given ones. -/
def lexemes (p : Pieces) (name items : List Lexeme) : List Lexeme :=
  p.toFront.lexemes name ++ (items ++ (p.flags ++ p.semicolon.toList))

/-- The pieces are read from lexemes of a declaration. -/
structure Fits (p : Pieces) (name items : List Lexeme) : Prop
    extends Front.Fits p.toFront name (first items) where
  items : Items .declaration items p.found
  value : p.value ≠ []
  flags : ∀ l ∈ p.flags, l.token = .flag ∨ l.token = .space
  flag : ∀ t ∈ first p.flags, t = .flag
  semicolon : ∀ l ∈ p.semicolon, l.token = .semicolon

end Pieces

theorem Property.ne_nil {ls : List Lexeme} {n : Node} (h : Property ls n) : ls ≠ [] := by
  cases h with
  | ofVariable _ => exact List.cons_ne_nil _ _
  | ofParts hp hne =>
    obtain ⟨l, ms, rfl, -⟩ := hp.first_ne hne
    exact List.cons_ne_nil _ _

theorem leading_eq (p : Lexeme → Bool) (ls : List Lexeme) :
    ls = (leading p ls).1 ++ (leading p ls).2.1 ∧ ∀ l ∈ (leading p ls).1, p l = true :=
  ⟨List.takeWhile_append_dropWhile.symm, fun _ h => List.all_eq_true.1 List.all_takeWhile _ h⟩

theorem leading_complete {p : Lexeme → Bool} {read rest : List Lexeme} (h : ∀ l ∈ read, p l = true)
    (hend : ∀ l ∈ rest.head?, p l = false) :
    ∃ hle, leading p (read ++ rest) = (read, ⟨rest, hle⟩) := by
  have ht : (read ++ rest).takeWhile p = read := by
    rw [List.takeWhile_append_of_pos h]
    cases rest with
    | nil => simp
    | cons l ls => simp [hend l rfl]
  have hd : (read ++ rest).dropWhile p = rest := by
    rw [List.dropWhile_append_of_pos h]
    cases rest with
    | nil => rfl
    | cons l ls => simp [hend l rfl]
  refine ⟨by simp, ?_⟩
  simp only [leading, ht, Prod.mk.injEq, true_and]
  exact Subtype.ext hd

theorem leadingOne_eq (p : Lexeme → Bool) (ls : List Lexeme) :
    ls = (leadingOne p ls).1 ++ (leadingOne p ls).2.1 ∧
      (((leadingOne p ls).1 = [] ∧ ∀ l ∈ (leadingOne p ls).2.1.head?, p l = false) ∨
        ∃ l, (leadingOne p ls).1 = [l] ∧ p l = true) := by
  cases ls with
  | nil => simp [leadingOne]
  | cons l ls =>
    by_cases hp : p l = true <;> simp [leadingOne, hp]

theorem leadingOne_complete {p : Lexeme → Bool} {read rest ls : List Lexeme}
    (h : (read = [] ∧ ∀ l ∈ rest.head?, p l = false) ∨ ∃ l, read = [l] ∧ p l = true)
    (hls : ls = read ++ rest) : ∃ hle, leadingOne p ls = (read, ⟨rest, hle⟩) := by
  rcases h with ⟨rfl, h⟩ | ⟨l, rfl, h⟩
  · rw [List.nil_append] at hls
    subst hls
    cases ls with
    | nil => exact ⟨Nat.le_refl _, rfl⟩
    | cons l ls => exact ⟨Nat.le_refl _, by simp [leadingOne, h l rfl]⟩
  · rw [List.singleton_append] at hls
    subst hls
    exact ⟨Nat.le_succ _, by simp [leadingOne, h]⟩

theorem semicolon?_iff {ls : List Lexeme} {o : Option Lexeme}
    {r : { rest : List Lexeme // rest.length ≤ ls.length }} :
    semicolon? ls = .ok (o, r) ↔ ls = o.toList ++ r.1 ∧ (∀ l ∈ o, l.token = .semicolon) ∧
      (o = none → Closes (first r.1)) := by
  obtain ⟨rest, hr⟩ := r
  cases ls with
  | nil =>
    cases o with
    | none =>
      simp [semicolon?, Closes, eq_comm]
      rintro rfl
      simp
    | some l => simp [semicolon?]
  | cons l ls =>
    simp only [semicolon?]
    split
    · rename_i ht
      cases o <;> simp [Closes, eq_comm]
      · rintro rfl; simp [ht]
      · rintro rfl -; exact ht.symm
    · rename_i ht
      have hne (o : Lexeme) (rest : List Lexeme) (h : l :: ls = o :: rest)
          (ho : o.token = .semicolon) : False := by
        rw [List.cons.injEq] at h
        exact ht (h.1 ▸ ho)
      split
      · rename_i hb
        cases o with
        | none =>
          simp only [Closes, Except.ok.injEq, Prod.mk.injEq, Subtype.mk.injEq, true_and,
            Option.toList_none, List.nil_append, forall_const]
          refine ⟨?_, fun h => h.1⟩
          rintro rfl
          refine ⟨rfl, fun t ht => ?_, fun t ht => ?_⟩
          · cases ht
          · rw [← Option.some.inj ht]; exact hb
        | some o =>
          simp only [Except.ok.injEq, Prod.mk.injEq, reduceCtorEq, false_and, false_iff, not_and]
          exact fun h ho => absurd (ho o rfl) (hne o rest h)
      · rename_i hb
        simp only [reduceCtorEq, false_iff, not_and]
        intro h ho hcl
        cases o with
        | none =>
          have h : l :: ls = rest := h
          subst h
          exact hb (hcl rfl l.token rfl)
        | some o => exact hne o rest h (ho o rfl)

theorem front_sound {ls : List Lexeme} {p : Front}
    {r : { rest : List Lexeme // rest.length < ls.length }} (h : front ls = .ok (p, r)) :
    ∃ name, p.Fits name (first r.1) ∧ ls = p.lexemes name ++ r.1 := by
  simp only [front] at h
  split at h
  · cases h
  rename_i prop ls₁ h₁ hprop
  have hb := leading_eq (·.token == .space) ls₁
  generalize leading (·.token == .space) ls₁ = l₂ at h hb
  obtain ⟨blanks, ls₂, h₂⟩ := l₂
  simp only at h
  split at h
  · cases h
  rename_i colon ls₃ h₃ hcolon
  have hb' := leadingOne_eq (·.token == .space) ls₃
  generalize leadingOne (·.token == .space) ls₃ = l₄ at h hb'
  obtain ⟨blank, ls₄, h₄⟩ := l₄
  cases h
  obtain ⟨name, hname, hpname⟩ := property_sound hprop
  obtain ⟨hcons, hcolon⟩ := expect_iff.1 hcolon
  simp only at hname hb hcons hb' ⊢
  refine ⟨name, ⟨?_, hpname, ?_, hcolon, ?_⟩, ?_⟩
  · intro l hl
    obtain ⟨m, ms, rfl⟩ := List.exists_cons_of_ne_nil hpname.ne_nil
    simp only [List.head?_cons, Option.mem_def, Option.some.injEq] at hl
    simp [hname, hl]
  · simpa using hb.2
  · rcases hb'.2 with ⟨h, hnot⟩ | ⟨l, h, hsp⟩
    · refine .inl ⟨h, fun hfirst => ?_⟩
      cases ls₄ with
      | nil => cases hfirst
      | cons l ls₄ => simp_all
    · exact .inr ⟨l, h, by simpa using hsp⟩
  · rw [Front.lexemes, hname, hb.1, hcons, hb'.1]
    simp only [List.append_assoc, List.cons_append]

theorem Front.Fits.endsParts {p : Front} {name : List Lexeme} {next : Option Token}
    (h : p.Fits name next) (ls : List Lexeme) : EndsParts (p.blanks ++ p.colon :: ls) := by
  intro t ht
  cases hb : p.blanks with
  | nil =>
    simp only [hb, List.nil_append, first_cons, Option.mem_def, Option.some.injEq, h.colon] at ht
    simp [← ht]
  | cons l bs =>
    simp only [hb, List.cons_append, first_cons, Option.mem_def, Option.some.injEq,
      h.blanks l (by simp [hb])] at ht
    simp [← ht]

theorem front_complete {p : Front} {name rest ls : List Lexeme} (h : p.Fits name (first rest))
    (hls : ls = p.lexemes name ++ rest) : ∃ hlt, front ls = .ok (p, ⟨rest, hlt⟩) := by
  have hsplit : ls = name ++ (p.blanks ++ p.colon :: (p.blank ++ rest)) := by
    rw [hls]
    simp only [Front.lexemes, List.append_assoc, List.cons_append]
  obtain ⟨_, h₁⟩ := property_complete h.property hsplit (h.endsParts _)
  obtain ⟨_, h₂⟩ := leading_complete (p := (·.token == .space)) (fun l hl => by simp [h.blanks l hl])
    (show ∀ l ∈ (p.colon :: (p.blank ++ rest)).head?, _ from by simp [h.colon])
  have h₃ := expect_ok (t := (.colon, .colon)) h.colon (p.blank ++ rest)
  obtain ⟨_, h₄⟩ : ∃ hle, leadingOne (·.token == .space) (p.blank ++ rest) =
      (p.blank, ⟨rest, hle⟩) := by
    refine leadingOne_complete ?_ rfl
    rcases h.blank with ⟨hb, hf⟩ | ⟨l, hb, hl⟩
    · refine .inl ⟨hb, fun l hl => ?_⟩
      cases rest with
      | nil => cases hl
      | cons m rest =>
        obtain rfl : m = l := by simpa using hl
        simpa using hf
    · exact .inr ⟨l, hb, by simp [hl]⟩
  obtain ⟨l, ms, hn⟩ := List.exists_cons_of_ne_nil h.property.ne_nil
  have hstart : (ls.head?.map (·.span.start)).getD 0 = p.start := by
    rw [hls, Front.lexemes, hn]
    simp [h.start l (by simp [hn])]
  refine ⟨?_, ?_⟩
  · rw [hls]
    simp only [Front.lexemes, hn, List.cons_append, List.length_cons, List.length_append]
    omega
  · simp only [front, h₁]
    rw [h₂]
    simp only [h₃]
    rw [h₄]
    simp only [hstart]

theorem declaration_sound {ls : List Lexeme} {n : Node}
    {r : { rest : List Lexeme // rest.length < ls.length }} (h : declaration ls = .ok (n, r)) :
    ∃ (p : Pieces) (name items : List Lexeme), p.Fits name items ∧ p.node = n ∧
      ls = p.lexemes name items ++ r.1 ∧ (p.semicolon = none → Closes (first r.1)) := by
  simp only [declaration] at h
  split at h
  · cases h
  rename_i fr ls₁ h₁ hfront
  split at h
  · cases h
  rename_i found ls₂ h₂ hfound
  have hf := leading_eq (fun l => l.token == .flag || l.token == .space) ls₂
  generalize leading (fun l => l.token == .flag || l.token == .space) ls₂ = l₃ at h hf
  obtain ⟨flags, ls₃, h₃⟩ := l₃
  simp only at h
  split at h
  · cases h
  rename_i hvalue
  split at h
  · cases h
  rename_i semicolon rest hle hsemi
  cases h
  obtain ⟨name, hfit, hls⟩ := front_sound hfront
  obtain ⟨its, hits, hitems, hends⟩ := items_sound hfound
  obtain ⟨hsplit, hst, hcl⟩ := semicolon?_iff.1 hsemi
  simp only at hls hits hf hsplit hcl hends hfit ⊢
  refine ⟨_, name, its, ⟨⟨hfit.start, hfit.property, hfit.blanks, hfit.colon, ?_⟩, hitems, ?_, ?_,
    ?_, hst⟩, rfl, ?_, hcl⟩
  · refine hfit.blank.imp_left fun hb => ⟨hb.1, fun hfirst => hb.2 ?_⟩
    cases its with
    | nil => cases hfirst
    | cons l its => rw [hits]; exact hfirst
  · simpa [Pieces.value] using hvalue
  · simpa using hf.2
  · intro t ht
    cases flags with
    | nil => cases ht
    | cons l flags =>
      simp only [first_cons, Option.mem_def, Option.some.injEq] at ht
      subst ht
      have hl := hf.2 l List.mem_cons_self
      rw [hf.1] at hends
      simp only [Stop.Ends, Stop.isAt, List.cons_append] at hends
      rcases (by simpa using hl : l.token = .flag ∨ l.token = .space) with hl | hl
      · exact hl
      · simp [hl] at hends
  · rw [Pieces.lexemes, hls, hits, hf.1, hsplit]
    simp only [List.append_assoc]

theorem Pieces.Fits.ends_flags {p : Pieces} {name items : List Lexeme} (h : p.Fits name items)
    {rest : List Lexeme} (hcl : p.semicolon = none → Closes (first rest)) :
    Stop.Ends .declaration (p.flags ++ (p.semicolon.toList ++ rest)) ∧
      ∀ l ∈ (p.semicolon.toList ++ rest).head?, (l.token == .flag || l.token == .space) = false := by
  have hend : Stop.Ends .declaration (p.semicolon.toList ++ rest) ∧
      ∀ l ∈ (p.semicolon.toList ++ rest).head?, (l.token == .flag || l.token == .space) = false := by
    cases hs : p.semicolon with
    | some l => simp [Stop.Ends, Stop.isAt, h.semicolon l hs]
    | none =>
      cases rest with
      | nil => simp [Stop.Ends, Stop.missing?]
      | cons l rest => simp [Stop.Ends, Stop.isAt, hcl hs l.token rfl]
  refine ⟨?_, hend.2⟩
  cases hf : p.flags with
  | nil => exact hend.1
  | cons l ls =>
    have := h.flag l.token (by simp [hf])
    simp [Stop.Ends, Stop.isAt, this]

theorem Items.ne_nil {stop : Stop} {ls : List Lexeme} {ns : List Node} (h : Items stop ls ns)
    (hne : ns ≠ []) : ls ≠ [] := by
  cases h with
  | nil => exact absurd rfl hne
  | leaf _ _ _ _ => exact List.cons_ne_nil _ _
  | bracket _ _ _ _ =>
    rename_i o _ _ _ _ _ _ _ _ _
    cases o <;> exact List.cons_ne_nil _ _

namespace Pieces

theorem trailing_is_space (p : Pieces) : ∀ n ∈ p.trailing, n.is .space = true := by
  intro n hn
  rw [trailing, List.mem_reverse] at hn
  exact List.all_eq_true.1 List.all_takeWhile n hn

theorem value_append (p : Pieces) : p.value ++ p.trailing = p.found := by
  rw [value, trailing, ← List.reverse_append, List.takeWhile_append_dropWhile, List.reverse_reverse]

/-- The children of a declaration before its value. -/
def before (p : Pieces) : List Node :=
  p.property :: p.blanks.map Lexeme.trivia ++ [p.colon.leaf .punctuation] ++
    p.blank.map Lexeme.trivia

/-- The children of a declaration behind its value. -/
def behind (p : Pieces) : List Node :=
  p.trailing ++ p.flags.map flagOrBlank ++ (p.semicolon.map fun l => l.leaf .punctuation).toList

theorem node_eq (p : Pieces) : ∃ span, p.node = .sequence .declaration
    (p.before ++ .sequence .value p.value (some (spanOf p.value)) :: p.behind) span := by
  unfold node before behind
  cases hs : p.semicolon <;> exact ⟨_, by simp [parts]; rfl⟩

end Pieces

/-- The lexemes of the value and those of the blanks behind it. -/
theorem Pieces.Fits.split {p : Pieces} {name items : List Lexeme} (h : p.Fits name items) :
    ∃ vs ts, items = vs ++ ts ∧ Items .declaration vs p.value ∧ Items .declaration ts p.trailing :=
  Items.split (p.value_append ▸ h.items)

theorem Pieces.Fits.items_ne_nil {p : Pieces} {name items : List Lexeme} (h : p.Fits name items) :
    items ≠ [] := by
  refine h.items.ne_nil fun hf => h.value ?_
  simp [Pieces.value, hf]

theorem declaration_complete {p : Pieces} {name items : List Lexeme} (h : p.Fits name items)
    {ls rest : List Lexeme} (hls : ls = p.lexemes name items ++ rest)
    (hcl : p.semicolon = none → Closes (first rest)) :
    ∃ hlt, declaration ls = .ok (p.node, ⟨rest, hlt⟩) := by
  obtain ⟨hends, hsemi⟩ := h.ends_flags hcl
  have hfront : p.toFront.Fits name (first (items ++ (p.flags ++ (p.semicolon.toList ++ rest)))) := by
    rw [first_append h.items_ne_nil]; exact h.toFits
  obtain ⟨hlt, h₁⟩ := front_complete hfront
    (show ls = _ by rw [hls]; simp only [Pieces.lexemes, List.append_assoc])
  obtain ⟨_, h₂⟩ := items_complete h.items
    (rfl : items ++ (p.flags ++ (p.semicolon.toList ++ rest)) = _) hends
  obtain ⟨_, h₃⟩ := leading_complete (p := fun l => l.token == .flag || l.token == .space)
    (fun l hl => by simpa using h.flags l hl) hsemi
  have h₄ := (semicolon?_iff (r := ⟨rest, by simp⟩)).2
    ⟨(rfl : p.semicolon.toList ++ rest = _), h.semicolon, hcl⟩
  refine ⟨by simp only [List.length_append] at hlt; omega, ?_⟩
  simp only [declaration, h₁, h₂]
  rw [h₃, if_neg (by simpa [Pieces.value] using h.value)]
  simp only [h₄]

/-- **A declaration** is what the grammar says; without a semicolon of its own it ends a source or
a block. -/
theorem declaration_iff {ls : List Lexeme} {n : Node}
    {r : { rest : List Lexeme // rest.length < ls.length }} :
    declaration ls = .ok (n, r) ↔ ∃ (p : Pieces) (name items : List Lexeme),
      p.Fits name items ∧ p.node = n ∧ ls = p.lexemes name items ++ r.1 ∧
        (p.semicolon = none → Closes (first r.1)) := by
  refine ⟨declaration_sound, ?_⟩
  rintro ⟨p, name, items, hfit, rfl, hls, hcl⟩
  exact (declaration_complete hfit hls hcl).2

end Parse
end Stylesheet
