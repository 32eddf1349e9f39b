import Stylesheet.Proofs.Rule.CommentedStatements
import Stylesheet.Proofs.Syntax.Errors

/-!
# Unfinished sources

Where a reader asks for more than there is, there is something that can be put behind what it was
given: what is missing, and then what closes each bracket and block that is open. Blanks may come
first, so that the text can be put behind any source without a change to its last lexeme.

* `Finishes`: some endings behind the lexemes, after blanks or none, make them pass.
* `statements_ended`: statements that end too early can be finished.
* `parse_ended`: so can sources.
* `parse_errors`: what each error of a source says about it.
-/

namespace Stylesheet

open Lexeme

namespace Parse

/-! ### Endings -/

/-- What an unfinished source may want: something closed, a colon, a value. -/
def endings : List Token := [.closeParen, .closeBrace, .colon, .stringDouble]

/-- The lexemes with blanks or none, and lexemes of these tokens behind them. -/
def Extends (ls : List Lexeme) (w : List Token) (ms : List Lexeme) : Prop :=
  ∃ gap ws, (∀ g ∈ gap, g.token = .space) ∧ ws.map Lexeme.token = w ∧ ms = ls ++ (gap ++ ws)

/-- **Some endings behind the lexemes make them pass**, after blanks or none. -/
def Finishes (Pass : List Lexeme → Prop) (ls : List Lexeme) : Prop :=
  ∃ w, (∀ t ∈ w, t ∈ endings) ∧ ∀ ms, Extends ls w ms → Pass ms

theorem trivia_of_gap {gap : List Lexeme} (h : ∀ g ∈ gap, g.token = .space) :
    ∀ g ∈ gap, g.token.isTrivia = true := fun g hg => by rw [h g hg]; rfl

/-- What is put behind lexemes does not start with an opening parenthesis. -/
theorem Extends.first_ne {ls ms : List Lexeme} {w : List Token} (h : Extends ls w ms)
    (hw : ∀ t ∈ w, t ∈ endings) (hls : first ls ≠ some .openParen) :
    first ms ≠ some .openParen := by
  obtain ⟨gap, ws, hgap, rfl, rfl⟩ := h
  cases ls with
  | cons l ls => exact hls
  | nil =>
    cases gap with
    | cons g gap => simp [hgap g List.mem_cons_self]
    | nil =>
      cases ws with
      | nil => simp
      | cons l ws =>
        intro hl
        have := hw l.token (by simp)
        rw [Option.some.inj hl] at this
        simp [endings] at this

theorem Extends.first_eq {ls ms : List Lexeme} {w : List Token} (h : Extends ls w ms)
    (hls : ls ≠ []) : first ms = first ls := by
  obtain ⟨gap, ws, -, -, rfl⟩ := h
  exact first_append hls _

/-- What is finished behind other lexemes. -/
theorem Finishes.behind {P Q : List Lexeme → Prop} {ls : List Lexeme} (h : Finishes P ls)
    (read : List Lexeme)
    (hq : ∀ w ms, (∀ t ∈ w, t ∈ endings) → Extends ls w ms → P ms → Q (read ++ ms)) :
    Finishes Q (read ++ ls) := by
  obtain ⟨w, hw, h⟩ := h
  refine ⟨w, hw, fun ms hms => ?_⟩
  obtain ⟨gap, ws, hgap, hws, rfl⟩ := hms
  have hext : Extends ls w (ls ++ (gap ++ ws)) := ⟨gap, ws, hgap, hws, rfl⟩
  rw [List.append_assoc]
  exact hq w _ hw hext (h _ hext)

/-- What is finished behind other lexemes, with one ending more. -/
theorem Finishes.close {P Q : List Lexeme → Prop} {ls : List Lexeme} (h : Finishes P ls)
    (read : List Lexeme) {t : Token} (ht : t ∈ endings)
    (hq : ∀ ms close, P ms → close.token = t → Q (read ++ (ms ++ [close]))) :
    Finishes Q (read ++ ls) := by
  obtain ⟨w, hw, h⟩ := h
  refine ⟨w ++ [t], ?_, fun ms hms => ?_⟩
  · simp only [List.mem_append, List.mem_singleton]
    rintro u (hu | rfl)
    · exact hw u hu
    · exact ht
  · obtain ⟨gap, ws, hgap, hws, rfl⟩ := hms
    obtain ⟨vs, tail, rfl, hvs, htail⟩ := List.map_eq_append_iff.1 hws
    obtain ⟨close, tail, rfl, hclose, htail⟩ := List.map_eq_cons_iff.1 htail
    obtain rfl := List.map_eq_nil_iff.1 htail
    have := hq (ls ++ (gap ++ vs)) close (h _ ⟨gap, vs, hgap, hvs, rfl⟩) hclose
    simpa only [List.append_assoc] using this

/-- What nothing is missing from, whatever blanks stand behind it. -/
theorem Finishes.of_gap {Q : List Lexeme → Prop} {ls : List Lexeme}
    (hq : ∀ gap, (∀ g ∈ gap, g.token = .space) → Q (ls ++ gap)) : Finishes Q ls := by
  refine ⟨[], by simp, fun ms hms => ?_⟩
  obtain ⟨gap, ws, hgap, hws, rfl⟩ := hms
  obtain rfl := List.map_eq_nil_iff.1 hws
  rw [List.append_nil]
  exact hq gap hgap

/-- What one ending finishes. -/
theorem Finishes.of_ending {Q : List Lexeme → Prop} {ls : List Lexeme} {t : Token}
    (ht : t ∈ endings)
    (hq : ∀ gap close, (∀ g ∈ gap, g.token = .space) → close.token = t →
      Q (ls ++ (gap ++ [close]))) : Finishes Q ls := by
  refine ⟨[t], by simpa using ht, fun ms hms => ?_⟩
  obtain ⟨gap, ws, hgap, hws, rfl⟩ := hms
  obtain ⟨close, tail, rfl, hclose, htail⟩ := List.map_eq_cons_iff.1 hws
  obtain rfl := List.map_eq_nil_iff.1 htail
  exact hq gap close hgap hclose

/-! ### Values -/

theorem expect_ended {t : Token × Expected} {ls : List Lexeme} {e : Expected}
    (h : expect t ls = .error (.ended e)) : ls = [] := by
  cases ls with
  | nil => rfl
  | cons l ls =>
    simp only [expect] at h
    split at h <;> cases h

/-- Something other than blanks. -/
def HasValue (ns : List Node) : Prop := ∃ n ∈ ns, n.is .space = false

theorem Pieces.value_ne_nil_iff (p : Pieces) : p.value ≠ [] ↔ HasValue p.found := by
  simp [Pieces.value, HasValue, List.dropWhile_eq_nil_iff]

theorem Opening.node_is_space (o : Opening) (inside : List Node) (close : Lexeme) :
    (o.node inside close).is .space = false := by
  cases o <;> rfl

theorem Opening.closer_mem (o : Opening) : o.closer.1 ∈ endings := by
  cases o <;> simp [Opening.closer, endings]

theorem items_rest_ne_nil {stop : Stop} {ls : List Lexeme} {ns : List Node}
    {r : { rest : List Lexeme // rest.length ≤ ls.length }} (h : items stop ls = .ok (ns, r))
    (hstop : stop.missing? ≠ none) : r.1 ≠ [] := by
  obtain ⟨-, -, -, hends⟩ := items_sound h
  intro hr
  rw [hr] at hends
  exact hstop hends

theorem Opening.missing_ne (o : Opening) : o.stop.missing? ≠ none := by
  cases o <;> simp [Opening.stop, Stop.missing?]

/-- **Items that end too early** can be finished; in a place where a value may end there is then
more to it than blanks, as it was a bracket that did not end. -/
theorem items_ended {stop : Stop} {ls : List Lexeme} {e : Expected}
    (h : items stop ls = .error (.ended e)) :
    Finishes (fun ms => ∃ ns, Items stop ms ns ∧ (stop.missing? = none → HasValue ns)) ls := by
  -- by the recursion of the reader: each bracket that is still open asks for one ending more, and
  -- what is read before the end is kept in front
  fun_induction items stop ls with
  | case1 stop expected hm =>
    refine .of_gap fun gap hgap => ⟨_, Items.nil.before_trivia (trivia_of_gap hgap), fun hnone => ?_⟩
    rw [hnone] at hm
    cases hm
  | case2 => cases h
  | case3 => cases h
  | case4 stop l ls hs o ls₁ h₁ ho e' hi ih =>
    cases h
    obtain ⟨hfit, hmarks⟩ := opening?_eq_some.1 ho
    rw [hmarks]
    refine (ih hi).close o.marks o.closer_mem ?_
    rintro ms close ⟨inside, hin, -⟩ hclose
    exact ⟨_, .bracket hfit hin hclose .nil,
      fun _ => ⟨_, List.mem_cons_self, o.node_is_space inside close⟩⟩
  | case5 stop l ls hs o ls₁ h₁ ho inside ls₂ h₂ hi e' hc =>
    cases h
    exact absurd (expect_ended hc) (items_rest_ne_nil hi o.missing_ne)
  | case6 stop l ls hs o ls₁ h₁ ho inside ls₂ h₂ hi close ls₃ h₃ hc e' hmore ih₁ ih₂ =>
    cases h
    obtain ⟨hfit, hmarks⟩ := opening?_eq_some.1 ho
    obtain ⟨read, hread, hin, -⟩ := items_sound hi
    obtain ⟨hcons, hclose⟩ := expect_iff.1 hc
    have hsplit : l :: ls = (o.marks ++ (read ++ [close])) ++ ls₃ := by
      simp only at hmarks hread hcons
      rw [hmarks, hread, hcons]
      simp
    rw [hsplit]
    refine (ih₂ hmore).behind _ ?_
    rintro w ms - - ⟨ns, hns, -⟩
    refine ⟨o.node inside close :: ns, ?_, fun _ => ⟨_, List.mem_cons_self, o.node_is_space _ _⟩⟩
    simpa using Items.bracket hfit hin hclose hns
  | case7 => cases h
  | case8 => cases h
  | case9 stop l ls hs ho n hn e' hmore ih =>
    cases h
    refine (ih hmore).behind [l] ?_
    rintro w ms hw hext ⟨ns, hns, hvalue⟩
    refine ⟨n :: ns, .leaf (by simpa using hs) hn (fun ht => ?_) hns, fun hstop => ?_⟩
    · exact hext.first_ne hw ((opening?_eq_none hn).1 ho ht)
    · obtain ⟨m, hm, hspace⟩ := hvalue hstop
      exact ⟨m, List.mem_cons_of_mem _ hm, hspace⟩
  | case10 => cases h

/-! ### Declarations -/

theorem propertyParts_ended {ls : List Lexeme} {e : Expected}
    (h : propertyParts ls = .error (.ended e)) :
    Finishes (fun ms => ∃ ns, PropertyParts ms ns ∧ ns ≠ []) ls := by
  fun_induction propertyParts ls with
  | case1 => cases h
  | case2 l ls ht e' hmore ih | case4 l ls ht e' hmore ih =>
    cases h
    refine (ih hmore).behind [l] ?_
    rintro w ms - - ⟨ns, hns, -⟩
    exact ⟨_, .word (by simp [ht]) hns, List.cons_ne_nil _ _⟩
  | case3 => cases h
  | case5 => cases h
  | case6 l ls ht e' hi =>
    cases h
    refine (items_ended hi).close [l] (t := .closeBrace) (by decide) ?_
    rintro ms close ⟨inside, hin, -⟩ hclose
    exact ⟨_, .interpolation ht hin hclose .nil, List.cons_ne_nil _ _⟩
  | case7 l ls ht inside ls₁ h₁ hi e' hc =>
    cases h
    exact absurd (expect_ended hc) (items_rest_ne_nil hi (by decide))
  | case8 l ls ht inside ls₁ h₁ hi close ls₂ h₂ hc e' hmore ih =>
    cases h
    obtain ⟨read, hread, hin, -⟩ := items_sound hi
    obtain ⟨hcons, hclose⟩ := expect_iff.1 hc
    have hsplit : l :: ls = (l :: (read ++ [close])) ++ ls₂ := by
      simp only at hread hcons
      rw [hread, hcons]
      simp
    rw [hsplit]
    refine (ih hmore).behind _ ?_
    rintro w ms - - ⟨ns, hns, -⟩
    refine ⟨(Opening.interpolation l).node inside close :: ns, ?_, List.cons_ne_nil _ _⟩
    simpa using PropertyParts.interpolation ht hin hclose hns
  | case9 => cases h
  | case10 => cases h

theorem property_ended {l : Lexeme} {ls : List Lexeme} {e : Expected}
    (h : property (l :: ls) = .error (.ended e)) :
    Finishes (fun ms => ∃ n, Property ms n) (l :: ls) := by
  simp only [property, bind, Except.bind] at h
  split at h
  · cases h
  · split at h
    · next hp =>
      cases h
      refine (propertyParts_ended hp).behind [] ?_
      rintro w ms - - ⟨ns, hns, hne⟩
      exact ⟨_, .ofParts hns hne⟩
    · split at h <;> cases h

/-- **What stands before a value** can be finished by a colon. -/
theorem front_ended {l : Lexeme} {ls : List Lexeme} {e : Expected}
    (h : front (l :: ls) = .error (.ended e)) :
    Finishes (fun ms => ∃ (p : Front) (name : List Lexeme),
      (∀ next, next ≠ some .space → p.Fits name next) ∧ ms = p.lexemes name) (l :: ls) := by
  have hfits {prop : Node} {name : List Lexeme} (blanks : List Lexeme) {colon : Lexeme}
      (hname : Property name prop) (hblanks : ∀ b ∈ blanks, b.token = .space)
      (hcolon : colon.token = .colon) :
      ∃ (p : Front) (name' : List Lexeme), (∀ next, next ≠ some .space → p.Fits name' next) ∧
        name ++ (blanks ++ [colon]) = p.lexemes name' := by
    obtain ⟨m, tail, rfl, -⟩ := hname.first_eq
    refine ⟨⟨m.span.start, prop, blanks, colon, []⟩, m :: tail, fun next hnext => ?_, rfl⟩
    exact ⟨by simp, hname, hblanks, hcolon, .inl ⟨rfl, hnext⟩⟩
  simp only [front] at h
  split at h
  · next hp =>
    cases h
    refine (property_ended hp).close [] (t := .colon) (by decide) ?_
    rintro ms colon ⟨prop, hprop⟩ hcolon
    exact hfits [] hprop (by simp) hcolon
  · next prop ls₁ h₁ hprop =>
    split at h
    · next hc =>
      cases h
      obtain ⟨name, hname, hread⟩ := property_sound hprop
      obtain ⟨hsplit, hblanks⟩ := leading_eq (·.token == .space) ls₁
      rw [expect_ended hc, List.append_nil] at hsplit
      refine .of_ending (t := .colon) (by decide) fun gap colon hgap hcolon => ?_
      simp only at hname
      rw [hname, hsplit, List.append_assoc, ← List.append_assoc _ gap]
      refine hfits _ hread (fun b hb => ?_) hcolon
      rcases List.mem_append.1 hb with hb | hb
      · simpa using hblanks b hb
      · exact hgap b hb
    · cases h

/-- A front at the end of the lexemes, with blanks behind it. -/
theorem Front.Fits.before_gap {p : Front} {name gap ms : List Lexeme} (h : p.Fits name none)
    (hgap : ∀ g ∈ gap, g.token = .space) (hms : first ms ≠ some .space) :
    ∃ (q : Front) (gap' : List Lexeme), (∀ g ∈ gap', g.token = .space) ∧
      q.Fits name (first (gap' ++ ms)) ∧ p.lexemes name ++ gap = q.lexemes name ++ gap' := by
  rcases h.blank with ⟨hblank, -⟩ | hblank
  · cases gap with
    | nil => exact ⟨p, [], hgap, ⟨h.start, h.property, h.blanks, h.colon, .inl ⟨hblank, hms⟩⟩, rfl⟩
    | cons g gap =>
      refine ⟨{ p with blank := [g] }, gap, fun b hb => hgap b (List.mem_cons_of_mem _ hb), ?_, ?_⟩
      · exact ⟨h.start, h.property, h.blanks, h.colon, .inr ⟨g, rfl, hgap g List.mem_cons_self⟩⟩
      · simp [Front.lexemes, hblank]
  · exact ⟨p, gap, hgap, ⟨h.start, h.property, h.blanks, h.colon, .inr hblank⟩, rfl⟩

/-- The end of a source needs no semicolon. -/
theorem semicolon?_ne_ended {ls : List Lexeme} {e : Expected} :
    semicolon? ls ≠ .error (.ended e) := by
  intro h
  cases ls with
  | nil => cases h
  | cons l ls =>
    simp only [semicolon?] at h
    split at h
    · cases h
    · split at h <;> cases h

/-- **Declarations that end too early** can be finished. -/
theorem declaration_ended {l : Lexeme} {ls : List Lexeme} {e : Expected}
    (h : declaration (l :: ls) = .error (.ended e)) :
    Finishes (fun ms => ∃ (p : Pieces) (name its : List Lexeme),
      p.Fits name its ∧ p.semicolon = none ∧ ms = p.lexemes name its) (l :: ls) := by
  have hfits {p : Front} {name its : List Lexeme} {found : List Node}
      (hp : p.Fits name (first its)) (hits : Items .declaration its found)
      (hvalue : HasValue found) :
      ∃ (q : Pieces) (name' its' : List Lexeme), q.Fits name' its' ∧ q.semicolon = none ∧
        p.lexemes name ++ its = q.lexemes name' its' := by
    refine ⟨⟨p, found, [], none⟩, name, its, ⟨hp, hits, ?_, ?_, ?_, ?_⟩, rfl, ?_⟩
    · exact (Pieces.value_ne_nil_iff _).2 hvalue
    · simp
    · simp
    · simp
    · simp [Pieces.lexemes]
  -- an empty string is a value that goes with anything before it
  have hstring {s : Lexeme} (hs : s.token = .stringDouble) :
      Items .declaration [s] [s.inner .stringDouble 1 1] ∧
        (s.inner .stringDouble 1 1).is .space = false :=
    ⟨.leaf (by simp [Stop.isAt, hs]) (by simp [item?, hs]) (by simp [hs]) .nil, rfl⟩
  simp only [declaration] at h
  split at h
  · next hf =>
    cases h
    refine (front_ended hf).close [] (t := .stringDouble) (by decide) ?_
    rintro ms s ⟨p, name, hp, rfl⟩ hs
    exact hfits (hp _ (by simp [hs])) (hstring hs).1 ⟨_, List.mem_cons_self, (hstring hs).2⟩
  next fr ls₁ h₁ hfront =>
  obtain ⟨name, hfit, hname⟩ := front_sound hfront
  simp only at hname hfit
  rw [hname]
  split at h
  · next hi =>
    cases h
    have hne : ls₁ ≠ [] := by
      rintro rfl
      rw [items] at hi
      cases hi
    refine (items_ended hi).behind _ ?_
    rintro w ms - hext ⟨found, hfound, hvalue⟩
    exact hfits (by rwa [hext.first_eq hne]) hfound (hvalue rfl)
  next found ls₂ h₂ hfound =>
  split at h
  · -- nothing but blanks behind the colon
    cases ls₂ with
    | cons m ls₂ => cases h
    | nil =>
      obtain ⟨read, hread, hits, -⟩ := items_sound hfound
      simp only [List.append_nil] at hread
      subst hread
      refine .of_ending (t := .stringDouble) (by decide) fun gap s hgap hs => ?_
      have hvalue (ns : List Node) : HasValue (ns ++ [s.inner .stringDouble 1 1]) :=
        ⟨_, by simp, (hstring hs).2⟩
      -- the first blank behind the colon belongs to the front
      cases ls₁ with
      | nil =>
        obtain ⟨q, gap', hgap', hq, hsplit⟩ :=
          hfit.before_gap hgap (by simp [hs] : first [s] ≠ some .space)
        rw [List.append_nil, ← List.append_assoc, hsplit, List.append_assoc]
        have hblanks := (Items.nil : Items .declaration [] []).before_trivia (trivia_of_gap hgap')
        exact hfits hq (hblanks.append (hstring hs).1 (by simp [hs])) (hvalue _)
      | cons m ls₁ =>
        rw [List.append_assoc]
        have hvalue' := (hits.before_trivia (trivia_of_gap hgap)).append (hstring hs).1 (by simp [hs])
        rw [List.append_assoc] at hvalue'
        exact hfits hfit hvalue' (hvalue _)
  · split at h
    · next hs =>
      cases h
      exact absurd hs semicolon?_ne_ended
    · cases h

/-! ### Statements -/

theorem Statements.single {ls : List Lexeme} {n : Node} {next : Option Lexeme}
    (h : Whole next ls n) : Statements next ls [n] := by
  have hwhole : Statements next (ls ++ []) [n] := .whole (by simpa using h) .nil
  simpa using hwhole

/-- **Blanks behind the last statement** are part of it, where it has no end of its own, or stand
behind it. -/
theorem Whole.before_gap {read gap : List Lexeme} {n : Node} {next : Option Lexeme}
    (h : Whole none read n) (hgap : ∀ g ∈ gap, g.token = .space)
    (hnext : Closes (next.map Lexeme.token)) : ∃ ns, Statements next (read ++ gap) ns := by
  have hended (h : ∀ next, Whole next read n) : ∃ ns, Statements next (read ++ gap) ns :=
    ⟨_, .whole (h _) (by simpa using Statements.nil.behind_trivia (trivia_of_gap hgap))⟩
  have hwhole {n : Node} (h : Whole next (read ++ gap) n) :
      ∃ ns, Statements next (read ++ gap) ns := ⟨[n], .single h⟩
  cases h with
  | trivia ht => exact hended fun _ => .trivia ht
  | semicolon ht => exact hended fun _ => .semicolon ht
  | atRule hk hps hs => exact hended fun _ => .atRule hk hps hs
  | openAtRule hk hps _ => exact hwhole (.openAtRule hk (hps.before_trivia (trivia_of_gap hgap)) hnext)
  | @declaration p name its hfit _ =>
    cases hs : p.semicolon with
    | some semicolon => exact hended fun _ => .declaration hfit fun hnone => by simp [hs] at hnone
    | none =>
      have hblank : first (its ++ gap) = first its := first_append hfit.items_ne_nil gap
      rcases hf : p.flags with _ | ⟨flag, flags⟩
      · -- the blanks stand behind the value
        have hq : Pieces.Fits { p with found := p.found ++ gap.map Lexeme.trivia } name
            (its ++ gap) :=
          { start := hfit.start
            property := hfit.property
            blanks := hfit.blanks
            colon := hfit.colon
            blank := by rw [hblank]; exact hfit.blank
            items := hfit.items.before_trivia (trivia_of_gap hgap)
            value := by
              obtain ⟨m, hm, hspace⟩ := p.value_ne_nil_iff.1 hfit.value
              exact (Pieces.value_ne_nil_iff _).2 ⟨m, List.mem_append_left _ hm, hspace⟩
            flags := hfit.flags
            flag := hfit.flag
            semicolon := hfit.semicolon }
        have hread : p.lexemes name its ++ gap =
            Pieces.lexemes { p with found := p.found ++ gap.map Lexeme.trivia } name
              (its ++ gap) := by
          simp [Pieces.lexemes, hf, hs]
        rw [hread] at hwhole ⊢
        exact hwhole (.declaration hq fun _ => hnext)
      · -- the blanks stand behind the flags
        have hq : Pieces.Fits { p with flags := p.flags ++ gap } name its :=
          { hfit with
            flags := fun l hl => (List.mem_append.1 hl).elim (hfit.flags l) fun h => .inr (hgap l h)
            flag := by simpa [hf] using hfit.flag }
        have hread : p.lexemes name its ++ gap =
            Pieces.lexemes { p with flags := p.flags ++ gap } name its := by
          simp [Pieces.lexemes, hs]
        rw [hread] at hwhole ⊢
        exact hwhole (.declaration hq fun _ => hnext)

theorem statement_ended {l : Lexeme} {ls : List Lexeme} {e : Expected}
    (h : statement l ls = .error (.ended e)) :
    Finishes (fun ms => ∀ next : Option Lexeme, Closes (next.map Lexeme.token) →
      ∃ n, Whole next ms n) (l :: ls) := by
  have hplain (h : plainDeclaration (l :: ls) = .error (.ended e)) :
      Finishes (fun ms => ∀ next : Option Lexeme, Closes (next.map Lexeme.token) →
        ∃ n, Whole next ms n) (l :: ls) := by
    simp only [plainDeclaration] at h
    split at h <;> cases h
    next hd =>
    refine (declaration_ended hd).behind [] ?_
    rintro w ms - - ⟨p, name, its, hp, -, hms⟩ next hnext
    rw [List.nil_append, hms]
    exact ⟨p.node, .declaration hp fun _ => hnext⟩
  simp only [statement] at h
  split at h
  case h_1 | h_2 | h_3 | h_4 => cases h
  case h_5 hk =>
    split at h <;> cases h
    next ha =>
    simp only [atRule] at ha
    split at ha
    · next hi =>
      cases ha
      refine (items_ended hi).behind [l] ?_
      rintro w ms - - ⟨params, hparams, -⟩ next hnext
      exact ⟨_, .openAtRule hk hparams hnext⟩
    · split at ha
      · cases ha
      · split at ha
        · cases ha
        · split at ha <;> cases ha
  case h_6 => exact hplain h
  case h_7 =>
    split at h
    · cases h
    · exact hplain h

theorem Statement.headed {next : Option Lexeme} {read : List Lexeme} {head : Head}
    (h : Statement next read head) (hne : ∀ n, head ≠ .whole n) : Headed read head := by
  cases head with
  | whole n => exact absurd rfl (hne n)
  | rule _ _ | atRule _ _ _ => exact h

/-- **Statements that end too early** can be finished, whatever closes the block that they are
in. -/
theorem statements_ended {inBlock : Bool} {ls : List Lexeme} {e : Expected}
    (h : statements inBlock ls = .error (.ended e)) :
    Finishes (fun ms => ∀ next : Option Lexeme, Closes (next.map Lexeme.token) →
      ∃ ns, Statements next ms ns) ls := by
  -- what comes behind is left open, so that the statements of a block can be closed by its brace
  fun_induction statements inBlock ls with
  | case1 =>
    refine .of_gap fun gap hgap next _ => ⟨gap.map Lexeme.trivia, ?_⟩
    simpa using Statements.nil.behind_trivia (trivia_of_gap hgap)
  | case2 => cases h
  | case3 => cases h
  | case4 => cases h
  | case5 inBlock l ls ht e' hs =>
    cases h
    refine (statement_ended hs).behind [] fun w ms _ _ hms next hnext => ?_
    obtain ⟨n, hn⟩ := hms next hnext
    exact ⟨[n], .single hn⟩
  | case6 inBlock l ls ht n ls₁ h₁ hs e' hmore ih =>
    cases h
    obtain ⟨read, hread, hn⟩ := statement_sound hs
    simp only at hread
    rw [hread]
    cases ls₁ with
    | nil =>
      -- the block ends right behind a statement
      refine .of_gap fun gap hgap next hnext => ?_
      simpa using Whole.before_gap (show Whole none read n from hn) hgap hnext
    | cons m ls₁ =>
      refine (ih hmore).behind read fun w ms _ hext hms next hnext => ?_
      obtain ⟨ns, hns⟩ := hms next hnext
      obtain ⟨gap, ws, -, -, rfl⟩ := hext
      exact ⟨_, .whole (show Whole (some m) read n from hn) hns⟩
  | case7 => cases h
  | case8 inBlock l ls ht head ls₁ h₁ hne hs e' hi ih =>
    cases h
    obtain ⟨read, hread, hhead⟩ := statement_sound hs
    simp only at hread
    rw [hread]
    refine (ih hi).close read (t := .closeBrace) (by decide) ?_
    intro ms close hms hclose next hnext
    obtain ⟨inside, hinside⟩ := hms (some close) (by simp [Closes, hclose])
    exact ⟨_, .block (hhead.headed hne) hinside hclose .nil⟩
  | case9 inBlock l ls ht head ls₁ h₁ hne hs inside ls₂ h₂ hi e' hc =>
    cases h
    obtain ⟨-, -, -, hend⟩ := statements_sound hi
    simp only [expect_ended hc] at hend
    cases hend
  | case10 inBlock l ls ht head ls₁ h₁ hne hs inside ls₂ h₂ hi close ls₃ h₃ hc e' hmore ih₁ ih₂ =>
    cases h
    obtain ⟨read, hread, hhead⟩ := statement_sound hs
    obtain ⟨read', hread', hinside, -⟩ := statements_sound hi
    obtain ⟨hcons, hclose⟩ := expect_iff.1 hc
    have hsplit : l :: ls = (read ++ (read' ++ [close])) ++ ls₃ := by
      simp only at hread hread' hcons
      rw [hread, hread', hcons]
      simp
    rw [hsplit]
    refine (ih₂ hmore).behind _ fun w ms _ _ hms next hnext => ?_
    obtain ⟨ns, hns⟩ := hms next hnext
    refine ⟨head.withBlock inside close :: ns, ?_⟩
    simp only [hcons, List.head?_cons] at hinside
    simpa using Statements.block (hhead.headed hne) hinside hclose hns
  | case11 => cases h

end Parse

namespace Lexeme

open Token Parse Pattern

/-! ### Texts behind a source -/

/-- The text of an ending. -/
def endingText : Token → List Char
  | .closeParen => [')']
  | .closeBrace => ['\x7d']
  | .colon => [':']
  | _ => ['"', '"']

/-- An ending as a lexeme. -/
def ending (t : Token) : Lexeme := ⟨t, String.ofList (endingText t), ⟨0, 0⟩⟩

/-- The characters that start an ending. -/
def endingMarks : List Char := [')', '\x7d', ':', '"']

/-- **Only strings and comments** hold an ending behind other text. -/
theorem holdsAny_of_ending {t : Token} {c d : Char} {s : List Char}
    (h : t.pattern.Matches (c :: s)) (hd : d ∈ endingMarks) (hs : d ∈ s) : t.holdsAny = true := by
  have hallows := allows_of_mem h (List.mem_cons_of_mem _ hs)
  have hone {c' : Char} (h : (Pattern.char c').Matches (c :: s)) : False := by
    have hnil : s = [] := by simpa using congrArg List.tail (Pattern.matches_char_iff.1 h)
    simp [hnil] at hs
  simp only [endingMarks, List.mem_cons, List.not_mem_nil, or_false] at hd
  cases t
  case colon | closeParen | closeBrace => exact (hone h).elim
  case stringDouble | stringSingle | lineComment | blockComment => rfl
  all_goals
    clear h hone
    rcases hd with rfl | rfl | rfl | rfl <;> exact absurd hallows (by decide)

theorem munch_ending {t : Token} (ht : t ∈ endings) (rest : List Char) :
    munch start (endingText t ++ rest) = some (t, endingText t, rest) := by
  simp only [endings, List.mem_cons, List.not_mem_nil, or_false] at ht
  rcases ht with rfl | rfl | rfl | rfl
  · exact munch_closeParen rest
  · exact munch_single rfl (by intro t; cases t <;> decide) rest
  · exact munch_colon rest
  · exact munch_quotedName (by simp : ∀ c ∈ ([] : List Char), _) rest

theorem endingText_marks {t : Token} (ht : t ∈ endings) :
    ∀ d ∈ endingText t, d ∈ endingMarks := by
  simp only [endings, List.mem_cons, List.not_mem_nil, or_false] at ht
  rcases ht with rfl | rfl | rfl | rfl <;> simp [endingText, endingMarks]

/-- Endings are lexemes of their own, and there is nothing but their marks in them. -/
theorem cuts_endings {w : List Token} (hw : ∀ t ∈ w, t ∈ endings) :
    Cuts ((w.map ending).map word) ∧ ∀ d ∈ spell ((w.map ending).map word), d ∈ endingMarks := by
  induction w with
  | nil => exact ⟨trivial, by simp [spell]⟩
  | cons t w ih =>
    obtain ⟨hcuts, hmarks⟩ := ih fun u hu => hw u (List.mem_cons_of_mem _ hu)
    have ht := hw t List.mem_cons_self
    have htext : (word (ending t)).2 = endingText t := by simp [word, ending]
    refine ⟨?_, fun d hd => ?_⟩
    · rw [List.map_cons, List.map_cons, cuts_cons, htext]
      exact ⟨munch_ending ht _, hcuts⟩
    · rw [List.map_cons, List.map_cons, spell_cons, htext, List.mem_append] at hd
      exact hd.elim (endingText_marks ht d) (hmarks d)

/-- The text can stand behind the words: it starts with a line break behind anything but a blank,
or with an ending behind anything but a line comment. -/
def Follows (ws : List (Token × List Char)) (s : List Char) : Prop :=
  ∀ d ∈ s.head?, (d = '\n' ∧ ∀ w ∈ ws.getLast?, w.1 ≠ .space) ∨
    (d ∈ endingMarks ∧ ∀ w ∈ ws.getLast?, w.1 ≠ .lineComment)

/-- What closes a comment before a text without a slash stands before the text. -/
theorem closes_of_append {s t : List Char} (ht : '/' ∉ t)
    (h : ∃ a b, s ++ t = a ++ '*' :: '/' :: b) : ∃ a b, s = a ++ '*' :: '/' :: b := by
  obtain ⟨a, b, h⟩ := h
  have h : s ++ t = (a ++ ['*', '/']) ++ b := by simpa using h
  rcases List.append_eq_append_iff.1 h with ⟨r, hr, rfl⟩ | ⟨r, rfl, -⟩
  · rcases List.eq_nil_or_concat' r with rfl | ⟨r, x, rfl⟩
    · exact ⟨a, [], by simpa using hr.symm⟩
    · obtain rfl : x = '/' := by simpa using (congrArg List.getLast? hr).symm
      exact absurd (by simp) ht
  · exact ⟨a, r, by simp⟩

/-- **Words behind others** leave them what they are, where their text can follow them and closes
no comment. -/
theorem Cuts.append {ws vs : List (Token × List Char)} (h : Cuts ws) (hvs : Cuts vs)
    (hslash : '/' ∉ spell vs) (hstar : '*' ∉ spell vs) (hfollows : Follows ws (spell vs)) :
    Cuts (ws ++ vs) := by
  induction ws with
  | nil => exact hvs
  | cons w ws ih =>
    obtain ⟨hm, hcuts⟩ := h
    have hlast {u : Token × List Char} (hu : u ∈ ws.getLast?) : u ∈ (w :: ws).getLast? := by
      rw [List.getLast?_cons, Option.mem_def.1 hu]
      rfl
    have hself (hws : spell ws = []) : w ∈ (w :: ws).getLast? := by
      cases ws with
      | nil => rfl
      | cons u ws => exact absurd (List.append_eq_nil_iff.1 hws).1 (munch_ne_nil hcuts.1)
    refine ⟨?_, ih hcuts fun d hd => (hfollows d hd).imp
      (fun hd => ⟨hd.1, fun u hu => hd.2 u (hlast hu)⟩)
      fun hd => ⟨hd.1, fun u hu => hd.2 u (hlast hu)⟩⟩
    show Lexeme.munch start (w.2 ++ spell (ws ++ vs)) = some (w.1, w.2, spell (ws ++ vs))
    rw [spell_append]
    rw [← List.append_nil (spell ws)] at hm
    refine munch_change hm (fun t d x y hs hmatch => ?_) (fun _ d hd => ?_) (fun ht hnil d hd => ?_)
      fun x hx => ?_
    · -- a longer match would go on with what comes first behind the words
      obtain ⟨c, text, hc⟩ := List.exists_cons_of_ne_nil (munch_ne_nil hm)
      have hmem : d ∈ text ++ (spell ws ++ d :: x) := by simp
      rw [hc] at hmatch
      rcases hfollows d (by rw [hs]; rfl) with ⟨rfl, hspace⟩ | ⟨hd, -⟩
      · refine holdsAny_of_blank rfl ?_ hmatch hmem
        rw [Bool.eq_false_iff]
        intro hblank
        obtain ⟨-, -, htok, hlong⟩ := munch_eq_some_iff.1 hm
        have hw : w.1 = .space := token_of_blank hblank (hc ▸ matches_of_tokenOf htok)
        obtain rfl := token_of_blank hblank hmatch
        cases hrest : spell ws with
        | nil => exact hspace w (hself hrest) hw
        | cons e rest =>
          refine tokenOf_eq_none_iff.1 (hlong [e] rest (by simp [hrest]) (List.cons_ne_nil _ _))
            .space (space_of_blank (by simp) fun b hb => blank_of_space hmatch b ?_)
          rw [hc, List.mem_append, List.mem_singleton] at hb
          rcases hb with hb | rfl
          · exact List.mem_append_left _ hb
          · simp [hrest]
      · exact holdsAny_of_ending hmatch hd hmem
    · have hmem : d ∈ spell vs := List.mem_of_mem_head? hd
      exact ⟨fun h => hslash (h ▸ hmem), fun h => hstar (h ▸ hmem)⟩
    · rcases hfollows d hd with ⟨rfl, -⟩ | ⟨-, hline⟩
      · exact .inr rfl
      · exact absurd ht (hline w (hself hnil))
    · rw [List.append_nil]
      exact closes_of_append hslash hx

/-- A line break, as a blank. -/
def lineBreak : Lexeme := ⟨.space, "\n", ⟨0, 0⟩⟩

/-- **Endings can be put behind any lexemes**, after a blank or at once. -/
theorem exists_cuts_endings {ws : List (Token × List Char)} (h : Cuts ws) {w : List Token}
    (hw : ∀ t ∈ w, t ∈ endings) : ∃ gap : List Lexeme, (∀ g ∈ gap, g.token = .space) ∧
      Cuts (ws ++ (gap ++ w.map ending).map word) := by
  obtain ⟨hcuts, hmarks⟩ := cuts_endings hw
  have hnone {c : Char} (hc : c ∉ '\n' :: endingMarks) :
      c ∉ spell ((w.map ending).map word) ∧
        c ∉ spell (word lineBreak :: (w.map ending).map word) := by
    simp only [List.mem_cons, not_or] at hc
    refine ⟨fun hmem => hc.2 (hmarks c hmem), fun hmem => ?_⟩
    rw [spell_cons, List.mem_append] at hmem
    refine hmem.elim (fun hmem => hc.1 ?_) fun hmem => hc.2 (hmarks c hmem)
    simpa [word, lineBreak] using hmem
  by_cases hspace : ∃ v ∈ ws.getLast?, v.1 = .space
  · obtain ⟨v, hv, hspace⟩ := hspace
    refine ⟨[], by simp, h.append hcuts (hnone (by decide)).1 (hnone (by decide)).1 fun d hd => ?_⟩
    refine .inr ⟨hmarks d (List.mem_of_mem_head? hd), fun u hu => ?_⟩
    obtain rfl := Option.mem_unique hv hu
    rw [hspace]
    decide
  · refine ⟨[lineBreak], by simp [lineBreak], ?_⟩
    have hbreak : Cuts (word lineBreak :: (w.map ending).map word) := by
      refine ⟨munch_blanks (b := ['\n']) (by simp) (by simp [isBlank]) fun d hd => ?_, hcuts⟩
      have := hmarks d (List.mem_of_mem_head? hd)
      simp only [endingMarks, List.mem_cons, List.not_mem_nil, or_false] at this
      rcases this with rfl | rfl | rfl | rfl <;> rfl
    refine h.append hbreak (hnone (by decide)).2 (hnone (by decide)).2 fun d hd => .inl ⟨?_, ?_⟩
    · exact (Option.some.inj hd).symm
    · exact fun v hv hv' => hspace ⟨v, hv, hv'⟩

end Lexeme

/-! ### Sources -/

theorem parse_eq_error {source : String} {e : ParseError} : parse source = .error e ↔
    (∃ offset, tokenize source = .error offset ∧ e = .unrecognized offset) ∨
      ∃ ls, tokenize source = .ok ls ∧ Parse.statements false ls = .error e := by
  unfold parse
  cases tokenize source with
  | error offset => simp [eq_comm]
  | ok ls =>
    cases h : Parse.statements false ls with
    | error e' => simp [h]
    | ok found => simp [h]

/-- **A source that ends too early** can be finished: there is something to put behind it. -/
theorem parse_ended {source : String} {e : Expected} (h : parse source = .error (.ended e)) :
    ∃ more tree, parse (source ++ more) = .ok tree := by
  rcases parse_eq_error.1 h with ⟨_, _, he⟩ | ⟨ls, hls, hst⟩
  · cases he
  obtain ⟨w, hw, hpass⟩ := Parse.statements_ended hst
  obtain ⟨hcuts, hspell⟩ := tokenize_iff.1 ⟨ls, hls, rfl⟩
  obtain ⟨gap, hgap, hcuts⟩ := exists_cuts_endings hcuts hw
  obtain ⟨ns, hns⟩ := hpass (ls ++ (gap ++ w.map ending))
    ⟨gap, _, hgap, by simp [ending, Function.comp_def], rfl⟩ none (by simp [Parse.Closes])
  let more := String.ofList (spell ((gap ++ w.map ending).map word))
  have hspell : spell (ls.map word ++ (gap ++ w.map ending).map word) =
      (source ++ more).toList := by
    rw [spell_append, hspell]
    simp [more]
  obtain ⟨ls', hls', hwords⟩ := tokenize_iff.2 ⟨hcuts, hspell⟩
  have hwords : (ls ++ (gap ++ w.map ending)).map word = ls'.map word := by
    rw [hwords, List.map_append]
  obtain ⟨ns', hns', -⟩ := hns.move (show Parse.SameToken none none from rfl) hwords
  exact ⟨_, _, parse_iff.2 ⟨ls', ns', hls', hns', rfl⟩⟩

/-- **What the errors of a source say.** A character is not recognized exactly where the lexemes
end; a token that does not fit is one of the lexemes, with its text and its place; and where more
is asked for, some text behind the source makes it whole. A brace is never asked for: the look
ahead for a block and the reader up to its brace agree. -/
theorem parse_errors (source : String) :
    (∀ offset, parse source = .error (.unrecognized offset) ↔ tokenize source = .error offset) ∧
    (∀ found offset expected, parse source = .error (.unexpected found offset expected) →
      ∃ ls, tokenize source = .ok ls ∧ ∃ l ∈ ls, l.text = found ∧ l.span.start = offset) ∧
    (∀ expected, parse source = .error (.ended expected) →
      expected ≠ .openBrace ∧ ∃ more tree, parse (source ++ more) = .ok tree) ∧
    (∀ ls, Parse.opensBlock 0 ls = true → ∃ found, Parse.untilBrace 0 ls = .ok found) ∧
    ∀ l ls, Parse.startsOther l.token = false →
      Parse.plain (Parse.statement l ls) = Parse.ruleOrDeclaration (l :: ls) := by
  have hpoints {e : ParseError} {ls : List Lexeme} (hst : Parse.statements false ls = .error e) :
      e.PointsAt ls := Parse.statements_error hst
  refine ⟨fun offset => ?_, fun found offset expected h => ?_,
    fun expected h => ⟨?_, parse_ended h⟩, fun ls => Parse.untilBrace_of_opensBlock,
    fun l ls hl => Parse.statement_eq_byLookahead hl ls⟩
  · rw [parse_eq_error]
    constructor
    · rintro (⟨offset', hoffset, heq⟩ | ⟨ls, -, hst⟩)
      · cases heq
        exact hoffset
      · exact (hpoints hst).elim
    · exact fun h => .inl ⟨offset, h, rfl⟩
  · rcases parse_eq_error.1 h with ⟨_, _, he⟩ | ⟨ls, hls, hst⟩
    · cases he
    · exact ⟨ls, hls, hpoints hst⟩
  · rcases parse_eq_error.1 h with ⟨_, _, he⟩ | ⟨ls, -, hst⟩
    · cases he
    · exact hpoints hst

/-- A source with brackets in a declaration in a block that do not end, and a line comment. -/
theorem parse_errors_sample : parse "a \x7b b: f((1, #\x7bc // d" = .error (.ended .closeBrace) ∧
    ∃ more tree, parse ("a \x7b b: f((1, #\x7bc // d" ++ more) = .ok tree := by
  have hend : (match parse "a \x7b b: f((1, #\x7bc // d" with
      | .ok _ => false
      | .error e => e == .ended .closeBrace) = true := by decide +kernel
  cases h : parse "a \x7b b: f((1, #\x7bc // d" with
  | ok t => rw [h] at hend; cases hend
  | error e =>
    rw [h] at hend
    obtain rfl : e = .ended .closeBrace := eq_of_beq hend
    exact ⟨rfl, ((parse_errors _).2.2.1 _ h).2⟩

end Stylesheet
