import Stylesheet.Proofs.Syntax.Kinds
import Stylesheet.Proofs.Syntax.Lexing

/-!
# Lexemes tile their source

The lexemes of a source stand one right after the other and leave nothing of it out. Each is the
longest text at its place that any kind of token describes, and of one kind only. Where a source
has no lexemes, all up to the offset that is returned has them, and no token starts there.

* `Placed`: where lexemes stand, by the texts of those before them.
* `Longest`: a lexeme and what its source holds before and behind it.
* `tokenize_lossless`: both outcomes of `tokenize`.
-/

namespace Stylesheet

theorem width_pos {s : List Char} (h : s ≠ []) : 0 < width s := by
  obtain ⟨c, s, rfl⟩ := List.exists_cons_of_ne_nil h
  have := c.utf8Size_pos
  simp only [width]
  omega

@[simp] theorem byteLength_append (s t : String) :
    byteLength (s ++ t) = byteLength s + byteLength t := by
  simp [byteLength]

namespace Lexeme

/-! ### Places -/

/-- The lexemes stand one right after the other from the offset on, each as long as its text. -/
def Placed : Nat → List Lexeme → Prop
  | _, [] => True
  | a, l :: ls => l.span = ⟨a, a + byteLength l.text⟩ ∧ Placed (a + byteLength l.text) ls

/-- The lexemes stand one right after the other, none of them empty, from the first offset up to
the second. -/
def Tiles : Nat → List Lexeme → Nat → Prop
  | start, [], stop => start = stop
  | start, l :: ls, stop => l.span.start = start ∧ start < l.span.stop ∧ Tiles l.span.stop ls stop

theorem placed_append {a : Nat} {ls ms : List Lexeme} :
    Placed a (ls ++ ms) ↔ Placed a ls ∧ Placed (a + width (spell (ls.map word))) ms := by
  induction ls generalizing a with
  | nil => simp [Placed, spell]
  | cons l ls ih =>
    have hwidth : a + width (spell ((l :: ls).map word)) =
        a + byteLength l.text + width (spell (ls.map word)) := by
      simp [spell_cons, word, byteLength, Nat.add_assoc]
    rw [hwidth, List.cons_append, Placed, Placed, ih, and_assoc]

theorem placed_of_cut {o : Nat} {cs : List Char} {ls : List Lexeme} (h : cut o cs = .ok ls) :
    Placed o ls := by
  fun_induction cut o cs generalizing ls with
  | case1 => cases h; trivial
  | case2 => cases h
  | case3 => cases h
  | case4 o c cs t text rest hm stop more hmore =>
    cases h
    rename_i ih
    simp only [Placed, byteLength, String.toList_ofList]
    exact ⟨rfl, ih hmore⟩

theorem Placed.tiles {a : Nat} {ls : List Lexeme} (h : Placed a ls)
    (hne : ∀ l ∈ ls, l.text.toList ≠ []) : Tiles a ls (a + width (spell (ls.map word))) := by
  induction ls generalizing a with
  | nil => exact (Nat.add_zero a).symm
  | cons l ls ih =>
    obtain ⟨hspan, hrest⟩ := h
    have hpos : 0 < byteLength l.text := width_pos (hne l List.mem_cons_self)
    have := ih hrest fun m hm => hne m (List.mem_cons_of_mem _ hm)
    simp only [Tiles, hspan, List.map_cons, spell_cons, word, width_append]
    refine ⟨trivial, by omega, ?_⟩
    rwa [← Nat.add_assoc]

/-! ### The longest text of one kind -/

/-- The lexeme stands in the source at its span. Its text is of its kind and of no other, and no
longer text from there on is of any kind. -/
def Longest (source : String) (l : Lexeme) : Prop :=
  ∃ before behind : String,
    source = before ++ l.text ++ behind ∧
    l.span = ⟨byteLength before, byteLength before + byteLength l.text⟩ ∧
    (∀ t : Token, t.pattern.Matches l.text.toList ↔ t = l.token) ∧
    ∀ more rest : String, behind = more ++ rest → more ≠ "" →
      ∀ t : Token, ¬ t.pattern.Matches (l.text ++ more).toList

/-- The source can be cut up to the offset, and no token starts there. -/
def Stuck (source : String) (i : Nat) : Prop :=
  ∃ before behind : String,
    source = before ++ behind ∧ byteLength before = i ∧ i < byteLength source ∧
    (∃ ls, tokenize before = .ok ls) ∧
    ∀ more rest : String, behind = more ++ rest → more ≠ "" →
      ∀ t : Token, ¬ t.pattern.Matches more.toList

/-- A longest match stays one when the text behind it is cut off further on. -/
theorem munch_of_append {live : List (Token × Pattern)} {t : Token} {text rest behind : List Char}
    (h : munch live (text ++ (rest ++ behind)) = some (t, text, rest ++ behind)) :
    munch live (text ++ rest) = some (t, text, rest) := by
  obtain ⟨-, hne, htok, hlong⟩ := munch_eq_some_iff.1 h
  refine munch_eq_some_iff.2 ⟨rfl, hne, htok, fun u v huv hu => ?_⟩
  exact hlong u (v ++ behind) (by rw [huv, List.append_assoc]) hu

/-- A text without lexemes is cut up to the offset that is returned. -/
theorem cuts_of_cut_error {o i : Nat} {cs : List Char} (h : cut o cs = .error i) :
    ∃ ws behind, Cuts ws ∧ cs = spell ws ++ behind ∧ i = o + width (spell ws) ∧ behind ≠ [] ∧
      munch start behind = none := by
  fun_induction cut o cs generalizing i with
  | case1 => cases h
  | case2 o c cs hm =>
    cases h
    exact ⟨[], c :: cs, trivial, rfl, rfl, List.cons_ne_nil _ _, hm⟩
  | case3 o c cs t text rest hm stop e he =>
    cases h
    rename_i ih
    obtain ⟨ws, behind, hws, rfl, hi, hne, hnone⟩ := ih he
    have happ := munch_append hm
    rw [← happ] at hm ⊢
    refine ⟨(t, text) :: ws, behind, ⟨munch_of_append hm, hws⟩, ?_, ?_, hne, hnone⟩
    · rw [spell_cons, List.append_assoc]
    · rw [hi, spell_cons, width_append, Nat.add_assoc]
  | case4 => cases h

/-! ### The two outcomes -/

/-- Each word of a cut is the longest match of what is left of the text. -/
theorem Cuts.munch {vs ws : List (Token × List Char)} {w : Token × List Char}
    (h : Cuts (vs ++ w :: ws)) : munch start (w.2 ++ spell ws) = some (w.1, w.2, spell ws) :=
  h.of_append.1

theorem longest_of_tokenize {source : String} {ls : List Lexeme} (h : tokenize source = .ok ls) :
    ∀ l ∈ ls, l.Longest source := by
  intro l hl
  obtain ⟨before, behind, rfl⟩ := List.append_of_mem hl
  obtain ⟨hcuts, hspell⟩ := cuts_of_cut h
  have hplaced := (placed_append.1 (placed_of_cut h)).2
  rw [List.map_append, List.map_cons] at hcuts hspell
  rw [spell_append, spell_cons] at hspell
  obtain ⟨-, -, htok, hlong⟩ := munch_eq_some_iff.1 hcuts.munch
  refine ⟨String.ofList (spell (before.map word)), String.ofList (spell (behind.map word)),
    ?_, ?_, fun t => ⟨fun ht => ?_, ?_⟩, fun more rest hmore hne t ht => ?_⟩
  · rw [← String.toList_inj, ← hspell]
    simp [word]
  · rw [hplaced.1]
    simp [byteLength]
  · exact Token.eq_of_matches ht (matches_of_tokenOf htok)
  · rintro rfl
    exact matches_of_tokenOf htok
  · rw [String.toList_append] at ht
    have hnone := hlong more.toList rest.toList (by rw [← String.toList_append, ← hmore]; simp)
      fun hnil => hne (String.toList_eq_nil_iff.1 hnil)
    exact tokenOf_eq_none_iff.1 hnone t ht

theorem tiles_of_tokenize {source : String} {ls : List Lexeme} (h : tokenize source = .ok ls) :
    Tiles 0 ls (byteLength source) := by
  obtain ⟨hcuts, hspell⟩ := cuts_of_cut h
  rw [byteLength, ← hspell, ← Nat.zero_add (width _)]
  refine (placed_of_cut h).tiles fun l hl hnil => ?_
  have hmatches : l.token.pattern.Matches l.text.toList :=
    hcuts.matches (word l) (List.mem_map_of_mem hl)
  rw [hnil] at hmatches
  exact Token.not_matches_nil _ hmatches

theorem stuck_of_tokenize {source : String} {i : Nat} (h : tokenize source = .error i) :
    Stuck source i := by
  obtain ⟨ws, behind, hws, hsource, hi, hne, hnone⟩ := cuts_of_cut_error h
  obtain ⟨ls, hls, -⟩ := cut_of_cuts hws 0
  have hsplit : source = String.ofList (spell ws) ++ String.ofList behind := by
    rw [← String.toList_inj, hsource]
    simp
  refine ⟨String.ofList (spell ws), String.ofList behind, hsplit, ?_, ?_, ⟨ls, ?_⟩, ?_⟩
  · rw [hi, byteLength, String.toList_ofList, Nat.zero_add]
  · have := width_pos hne
    rw [hsplit, byteLength_append, byteLength, byteLength, String.toList_ofList,
      String.toList_ofList]
    omega
  · rwa [tokenize, String.toList_ofList]
  · intro more rest hmore hpos t
    have hbehind : behind = more.toList ++ rest.toList := by
      rw [← String.toList_append, ← hmore, String.toList_ofList]
    have := munch_eq_none_iff.1 hnone _ _ hbehind fun hnil => hpos (String.toList_eq_nil_iff.1 hnil)
    exact tokenOf_eq_none_iff.1 this t

end Lexeme

open Lexeme in
/-- **Nothing is lost.** The lexemes of a source tile it, and each is the longest match at its
place and of one kind only. A source without lexemes is cut up to the offset that is returned,
where no token starts. No text is of two kinds. -/
theorem tokenize_lossless (source : String) :
    (∀ ls, tokenize source = .ok ls →
      Tiles 0 ls (byteLength source) ∧ ∀ l ∈ ls, l.Longest source) ∧
    (∀ i, tokenize source = .error i → Stuck source i) ∧
    ∀ (t u : Token) (s : List Char), t.pattern.Matches s → u.pattern.Matches s → t = u :=
  ⟨fun _ h => ⟨tiles_of_tokenize h, longest_of_tokenize h⟩, fun _ h => stuck_of_tokenize h,
    fun _ _ _ ht hu => Token.eq_of_matches ht hu⟩

/-- A name beyond ASCII before a number whose unit looks like an exponent, and a lone mark. -/
theorem tokenize_lossless_sample :
    (∃ ls, tokenize "é:-.5e1e;" = .ok ls ∧ Lexeme.Tiles 0 ls 10 ∧
      ∀ l ∈ ls, l.Longest "é:-.5e1e;") ∧
    ∃ i, tokenize "a #" = .error i ∧ Lexeme.Stuck "a #" i := by
  have hok : (tokenize "é:-.5e1e;").isOk = true := by decide +kernel
  have hstuck : (tokenize "a #").isOk = false := by decide +kernel
  constructor
  · cases h : tokenize "é:-.5e1e;" with
    | error i => rw [h] at hok; cases hok
    | ok ls => exact ⟨ls, rfl, (tokenize_lossless _).1 ls h⟩
  · cases h : tokenize "a #" with
    | error i => exact ⟨i, rfl, (tokenize_lossless _).2.1 i h⟩
    | ok ls => rw [h] at hstuck; cases hstuck

end Stylesheet
