import Stylesheet.Syntax.Lexeme

/-!
# Longest match

`munch` reads its input until no pattern is left and goes back to the last point at which one was
complete. What it returns is described here without the reading: the prefix is described by a
pattern, and no longer prefix is.

* `munch_eq_some_iff`, `munch_eq_none_iff`: the two outcomes of a step.
* `Cuts`: a text cut into words, each the longest that any token allows.
* `tokenize_iff`: a source has lexemes exactly when its text can be cut, and their words are the
  cut.
-/

namespace Stylesheet

namespace Pattern

theorem run_never (s : List Char) : never.run s = never := by
  induction s with
  | nil => rfl
  | cons c s ih => exact ih

theorem run_cons (p : Pattern) (c : Char) (s : List Char) : p.run (c :: s) = (p.after c).run s := rfl

end Pattern

namespace Lexeme

/-- The first of some patterns that describes a text. -/
def tokenAmong (live : List (Token × Pattern)) (s : List Char) : Option Token :=
  (live.find? fun e => (e.2.run s).matchesEmpty).map (·.1)

theorem tokenAmong_nil (s : List Char) : tokenAmong [] s = none := rfl

/-- A character in front is read by `advance`. -/
theorem tokenAmong_cons (live : List (Token × Pattern)) (c : Char) (s : List Char) :
    tokenAmong live (c :: s) = tokenAmong (advance c live) s := by
  induction live with
  | nil => rfl
  | cons e live ih =>
    obtain ⟨t, p⟩ := e
    simp only [tokenAmong, advance, List.find?_cons, List.filterMap_cons, Pattern.run_cons] at ih ⊢
    by_cases hp : p.after c = .never
    · rw [hp, Pattern.run_never]
      simpa [Pattern.matchesEmpty] using ih
    · split
      · rename_i hm
        cases hq : p.after c <;> simp_all
      · rename_i hm
        cases hq : p.after c <;> simp_all

/-- What `munch` does with the first character. -/
theorem munch_cons (live : List (Token × Pattern)) (c : Char) (cs : List Char) :
    munch live (c :: cs) =
      match munch (advance c live) cs with
      | some (t, text, rest) => some (t, c :: text, rest)
      | none => (tokenAmong (advance c live) []).map fun t => (t, [c], cs) := by
  simp only [munch]
  have hnil : ∀ cs, munch [] cs = none := by
    intro cs
    cases cs <;> simp [munch, advance]
  split
  · rename_i h
    rw [h, hnil, tokenAmong_nil]; rfl
  · cases munch (advance c live) cs with
    | some x => rfl
    | none => simp [tokenAmong, Pattern.run, Function.comp_def]

/-- **No token starts here**: no prefix but the empty one is described. -/
theorem munch_eq_none_iff {live : List (Token × Pattern)} {cs : List Char} :
    munch live cs = none ↔ ∀ u v, cs = u ++ v → u ≠ [] → tokenAmong live u = none := by
  induction cs generalizing live with
  | nil =>
    refine ⟨fun _ u v h hu => ?_, fun _ => rfl⟩
    exact absurd (List.append_eq_nil_iff.1 h.symm).1 hu
  | cons c cs ih =>
    rw [munch_cons]
    constructor
    · intro h u v huv hu
      obtain ⟨d, u, rfl⟩ := List.exists_cons_of_ne_nil hu
      simp only [List.cons_append, List.cons.injEq] at huv
      obtain ⟨rfl, rfl⟩ := huv
      rw [tokenAmong_cons]
      split at h
      · cases h
      · rename_i hm
        rcases u with _ | ⟨d, u⟩
        · simpa using h
        · exact ih.1 hm _ v rfl (List.cons_ne_nil _ _)
    · intro h
      have hm : munch (advance c live) cs = none := ih.2 fun u v huv _ => by
        rw [← tokenAmong_cons]
        exact h (c :: u) v (by rw [huv]; rfl) (List.cons_ne_nil _ _)
      rw [hm]
      have := h [c] cs rfl (List.cons_ne_nil _ _)
      rw [tokenAmong_cons] at this
      simp [this]

/-- **The longest match**: a prefix that a pattern describes, and no longer one is described. -/
theorem munch_eq_some_iff {live : List (Token × Pattern)} {cs text rest : List Char} {t : Token} :
    munch live cs = some (t, text, rest) ↔
      text ++ rest = cs ∧ text ≠ [] ∧ tokenAmong live text = some t ∧
        ∀ u v, rest = u ++ v → u ≠ [] → tokenAmong live (text ++ u) = none := by
  induction cs generalizing live text with
  | nil =>
    simp only [munch, List.append_eq_nil_iff, reduceCtorEq, false_iff]
    rintro ⟨⟨rfl, _⟩, h, _⟩
    exact h rfl
  | cons c cs ih =>
    rw [munch_cons]
    constructor
    · intro h
      split at h
      · -- a longer match goes on behind this character
        rename_i t' text' rest' hm
        simp only [Option.some.injEq, Prod.mk.injEq] at h
        obtain ⟨rfl, rfl, rfl⟩ := h
        obtain ⟨happ, _, htok, hlong⟩ := ih.1 hm
        refine ⟨by simp [happ], List.cons_ne_nil _ _, by rwa [tokenAmong_cons], ?_⟩
        intro u v huv hu
        rw [List.cons_append, tokenAmong_cons]
        exact hlong u v huv hu
      · -- nothing longer matches, so this character is all
        rename_i hm
        obtain ⟨t', ht', h⟩ := Option.map_eq_some_iff.1 h
        simp only [Prod.mk.injEq] at h
        obtain ⟨rfl, rfl, rfl⟩ := h
        refine ⟨rfl, List.cons_ne_nil _ _, by rwa [tokenAmong_cons], ?_⟩
        intro u v huv hu
        rw [List.cons_append, tokenAmong_cons]
        exact munch_eq_none_iff.1 hm u v huv hu
    · rintro ⟨happ, hne, htok, hlong⟩
      obtain ⟨d, text, rfl⟩ := List.exists_cons_of_ne_nil hne
      simp only [List.cons_append, List.cons.injEq] at happ
      obtain ⟨rfl, rfl⟩ := happ
      rw [tokenAmong_cons] at htok
      have hlong' : ∀ u v, rest = u ++ v → u ≠ [] → tokenAmong (advance d live) (text ++ u) = none := by
        intro u v huv hu
        rw [← tokenAmong_cons]
        exact hlong u v huv hu
      rcases text with _ | ⟨e, text⟩
      · have hm : munch (advance d live) rest = none := munch_eq_none_iff.2 hlong'
        rw [List.nil_append, hm, htok]; rfl
      · rw [ih.2 ⟨rfl, List.cons_ne_nil _ _, htok, hlong'⟩]

/-! ### Words -/

/-- The token that a whole text is. -/
def tokenOf (s : List Char) : Option Token := tokenAmong start s

theorem matches_of_tokenOf {s : List Char} {t : Token} (h : tokenOf s = some t) :
    t.pattern.Matches s := by
  obtain ⟨e, he, rfl⟩ := Option.map_eq_some_iff.1 h
  have hm := List.mem_of_find?_eq_some he
  have hp := List.find?_some he
  obtain ⟨t, -, rfl⟩ := List.mem_map.1 hm
  exact (Pattern.matches_iff_run _ _).2 hp

theorem tokenOf_eq_none_iff {s : List Char} :
    tokenOf s = none ↔ ∀ t : Token, ¬ t.pattern.Matches s := by
  simp only [tokenOf, tokenAmong, Option.map_eq_none_iff, List.find?_eq_none, start, List.mem_map,
    forall_exists_index, and_imp, forall_apply_eq_imp_iff₂, ← Pattern.matches_iff_run]
  exact ⟨fun h t => h t t.mem_kinds, fun h t _ => h t⟩

/-- What a lexeme is, wherever it stands. -/
def word (l : Lexeme) : Token × List Char := (l.token, l.text.toList)

/-- The text of words one after the other. -/
def spell (ws : List (Token × List Char)) : List Char := ws.flatMap (·.2)

/-- The words are the first to the last longest match of their text. -/
def Cuts : List (Token × List Char) → Prop
  | [] => True
  | w :: ws => munch start (w.2 ++ spell ws) = some (w.1, w.2, spell ws) ∧ Cuts ws

theorem spell_cons (w : Token × List Char) (ws : List (Token × List Char)) :
    spell (w :: ws) = w.2 ++ spell ws := rfl

theorem spell_append (vs ws : List (Token × List Char)) : spell (vs ++ ws) = spell vs ++ spell ws := by
  simp [spell]

theorem cuts_cons {w : Token × List Char} {ws : List (Token × List Char)} :
    Cuts (w :: ws) ↔ munch start (w.2 ++ spell ws) = some (w.1, w.2, spell ws) ∧ Cuts ws := Iff.rfl

theorem Cuts.of_append {vs ws : List (Token × List Char)} (h : Cuts (vs ++ ws)) : Cuts ws := by
  induction vs with
  | nil => exact h
  | cons v vs ih => exact ih h.2

/-- Lexemes are a cut of the text that they come from. -/
theorem cuts_of_cut {o : Nat} {cs : List Char} {ls : List Lexeme} (h : cut o cs = .ok ls) :
    Cuts (ls.map word) ∧ spell (ls.map word) = cs := by
  fun_induction cut o cs generalizing ls with
  | case1 => cases h; exact ⟨trivial, rfl⟩
  | case2 => cases h
  | case3 => cases h
  | case4 o c cs t text rest hm stop more hmore =>
    cases h
    rename_i ih
    obtain ⟨hc, hs⟩ := ih hmore
    simp only [List.map_cons, word, String.toList_ofList, Cuts, spell_cons, hs]
    have happ := munch_append hm
    exact ⟨⟨by rw [happ]; exact hm, hc⟩, happ⟩

/-- A text that can be cut has lexemes, whatever its offset. -/
theorem cut_of_cuts {ws : List (Token × List Char)} (h : Cuts ws) (o : Nat) :
    ∃ ls, cut o (spell ws) = .ok ls ∧ ls.map word = ws := by
  induction ws generalizing o with
  | nil => exact ⟨[], by rw [spell, List.flatMap_nil, cut], rfl⟩
  | cons w ws ih =>
    obtain ⟨hm, hc⟩ := h
    obtain ⟨ls, hls, hw⟩ := ih hc (o + width w.2)
    rw [spell_cons]
    obtain ⟨c, text, hct⟩ := List.exists_cons_of_ne_nil (munch_ne_nil hm)
    refine ⟨⟨w.1, String.ofList w.2, ⟨o, o + width w.2⟩⟩ :: ls, ?_, by simp [word, hw]⟩
    rw [hct, List.cons_append, cut]
    rw [hct, List.cons_append] at hm
    split
    · rename_i hn
      rw [hn] at hm; cases hm
    · rename_i t text' rest hs
      rw [hs] at hm
      cases hm
      rw [hct] at hls
      simp only [hls]

/-- **Lexemes are the cut**: the words of the lexemes of a source are the only cut of its text. -/
theorem tokenize_iff {source : String} {ws : List (Token × List Char)} :
    (∃ ls, tokenize source = .ok ls ∧ ls.map word = ws) ↔ Cuts ws ∧ spell ws = source.toList := by
  constructor
  · rintro ⟨ls, h, rfl⟩
    exact cuts_of_cut h
  · rintro ⟨hc, hs⟩
    rw [tokenize, ← hs]
    exact cut_of_cuts hc 0

/-- Every word is one of its token. -/
theorem Cuts.matches {ws : List (Token × List Char)} (h : Cuts ws) :
    ∀ w ∈ ws, w.1.pattern.Matches w.2 := by
  induction ws with
  | nil => intro w hw; cases hw
  | cons w ws ih =>
    obtain ⟨hm, hc⟩ := h
    intro v hv
    rcases List.mem_cons.1 hv with rfl | hv
    · exact matches_of_tokenOf (munch_eq_some_iff.1 hm).2.2.1
    · exact ih hc v hv

end Lexeme
end Stylesheet
