import Stylesheet.Proofs.Syntax.Commented
import Stylesheet.Proofs.Syntax.Kinds
import Stylesheet.Proofs.Syntax.Shapes
import Stylesheet.Proofs.Syntax.Standing

/-!
# A blank in place of a comment

Where a blank stands in place of a comment, it becomes one with the blanks beside it, and all other
lexemes stay: none could have been longer but for the comment.

* `Cuts.blanked`: the words of a text with a blank in place of a comment.
* `tokenize_blanked`: its lexemes, and where the blank stands.
-/

namespace Stylesheet

open Pattern

namespace Lexeme

open Token

/-! ### Blanks -/

theorem token_of_blank {t : Token} {d : Char} {s : List Char} (hd : isBlank d = true)
    (h : t.pattern.Matches (d :: s)) : t = .space :=
  Option.some.inj ((kindOf_of_matches h).symm.trans (by simp [kindOf, hd]))

theorem blank_of_space {s : List Char} (h : Token.space.pattern.Matches s) :
    ∀ c ∈ s, isBlank c = true := fun c hc => by
  simpa [pattern, oneOrMore, allows] using allows_of_mem h hc

theorem space_of_blank {s : List Char} (hne : s ≠ []) (h : ∀ c ∈ s, isBlank c = true) :
    Token.space.pattern.Matches s := matches_oneOrMore_one hne h

/-- Only strings and comments hold a blank behind other text. -/
theorem holdsAny_of_blank {t : Token} {x d : Char} {s : List Char} (hd : isBlank d = true)
    (hx : isBlank x = false) (h : t.pattern.Matches (x :: s)) (hs : d ∈ s) : t.holdsAny = true := by
  have hallows := allows_of_mem h (List.mem_cons_of_mem _ hs)
  have hspace : t ≠ .space := by
    rintro rfl
    rw [blank_of_space h x List.mem_cons_self] at hx
    cases hx
  clear h
  simp only [isBlank, Bool.or_eq_true, beq_iff_eq] at hd
  rcases hd with (((rfl | rfl) | rfl) | rfl) | rfl
  all_goals
    cases t
    all_goals first | rfl | exact absurd rfl hspace | exact absurd hallows (by decide)

/-- Blanks end where no blank follows. -/
theorem munch_blanks {b rest : List Char} (hne : b ≠ []) (hb : ∀ c ∈ b, isBlank c = true)
    (hrest : ∀ d ∈ rest.head?, isBlank d = false) :
    munch start (b ++ rest) = some (.space, b, rest) := by
  obtain ⟨x, y, rfl⟩ := List.exists_cons_of_ne_nil hne
  have hx : isBlank x = true := hb x List.mem_cons_self
  refine munch_eq_some_iff.2 ⟨rfl, hne, ?_, ?_⟩
  · cases ht : tokenAmong start (x :: y) with
    | none => exact absurd (space_of_blank hne hb) (tokenOf_eq_none_iff.1 ht .space)
    | some t => rw [token_of_blank hx (matches_of_tokenOf ht)]
  · intro u v huv hu
    obtain ⟨d, u, rfl⟩ := List.exists_cons_of_ne_nil hu
    refine tokenOf_eq_none_iff.2 fun t h => ?_
    obtain rfl := token_of_blank hx h
    have hd := hrest d (by rw [huv]; rfl)
    rw [blank_of_space h d (by simp)] at hd
    cases hd

/-- What closes a comment stands before a blank or behind it. -/
theorem closes_of_blank {s t : List Char} {d : Char} (hd : isBlank d = true)
    (h : ∃ a b, s ++ d :: t = a ++ '*' :: '/' :: b) :
    (∃ a b, s = a ++ '*' :: '/' :: b) ∨ ∃ a b, t = a ++ '*' :: '/' :: b := by
  obtain ⟨a, b, h⟩ := h
  rcases List.append_eq_append_iff.1 h with ⟨w, rfl, hw⟩ | ⟨w, rfl, hw⟩
  · right
    rcases w with _ | ⟨e, w⟩
    · obtain rfl := (List.cons.inj hw).1
      cases hd
    · exact ⟨w, b, (List.cons.inj hw).2⟩
  · left
    rcases w with _ | ⟨e, _ | ⟨f, w⟩⟩
    · obtain rfl := (List.cons.inj hw).1
      cases hd
    · obtain ⟨-, hw⟩ := List.cons.inj hw
      obtain rfl := (List.cons.inj hw).1
      cases hd
    · obtain ⟨he, hw⟩ := List.cons.inj hw
      rw [← he, ← (List.cons.inj hw).1]
      exact ⟨a, w, rfl⟩

/-! ### Words -/

/-- **A lexeme before the blank** stays the longest match. -/
theorem munch_before_blank {t : Token} {text c front behind comment rest : List Char}
    (h : munch start (text ++ (c ++ (front ++ (comment ++ (behind ++ rest))))) =
      some (t, text, c ++ (front ++ (comment ++ (behind ++ rest)))))
    (hfront : ∀ d ∈ front, isBlank d = true) (hcomment : comment.head? = some '/')
    (hspace : c = [] → t ≠ .space) :
    munch start (text ++ (c ++ (front ++ ' ' :: (behind ++ rest)))) =
      some (t, text, c ++ (front ++ ' ' :: (behind ++ rest))) := by
  obtain ⟨d, r, hd, hdr⟩ : ∃ d r, isBlank d = true ∧ front ++ ' ' :: (behind ++ rest) = d :: r := by
    cases front with
    | nil => exact ⟨' ', _, rfl, rfl⟩
    | cons d front => exact ⟨d, _, hfront d List.mem_cons_self, rfl⟩
  obtain ⟨x, y, rfl⟩ := List.exists_cons_of_ne_nil (munch_ne_nil h)
  obtain ⟨-, -, htok, hlong⟩ := munch_eq_some_iff.1 h
  have hnot (e : Char) (s : List Char)
      (hs : c ++ (front ++ (comment ++ (behind ++ rest))) = e :: s) :
      ¬ t.pattern.Matches (x :: y ++ [e]) :=
    tokenOf_eq_none_iff.1 (hlong [e] s hs (List.cons_ne_nil _ _)) t
  refine munch_change h (fun t' d' w v hs' hm => ?_) (fun _ e he => ?_) (fun ht hc e he => ?_)
    fun z hz => ?_
  · obtain rfl : d = d' := (List.cons.inj (hdr.symm.trans hs')).1
    refine holdsAny_of_blank hd ?_ (s := y ++ (c ++ d :: w)) hm (by simp)
    -- a blank that reaches so far would have been longer before
    rw [Bool.eq_false_iff]
    intro hx
    obtain rfl := token_of_blank hx hm
    obtain rfl := token_of_blank hx (matches_of_tokenOf htok)
    have hblank := blank_of_space hm
    rcases c with _ | ⟨e, c⟩
    · exact hspace rfl rfl
    · refine hnot e _ rfl (space_of_blank (by simp) fun b hb => hblank b ?_)
      rcases List.mem_append.1 hb with hb | hb
      · exact List.mem_append_left _ hb
      · simp [List.mem_singleton.1 hb]
  · rw [hdr] at he
    obtain rfl := Option.some.inj he
    constructor <;> rintro rfl <;> cases hd
  · subst ht hc
    have hline := matches_of_tokenOf htok
    obtain ⟨rest', hrest'⟩ := matches_lineComment hline
    obtain ⟨rfl, rfl⟩ := List.cons.inj hrest'
    have hold := matches_lineComment_iff.1 hline
    -- a line comment goes on up to a line break, and so the blank starts with one
    rcases front with _ | ⟨e', front⟩
    · obtain ⟨cs, rfl⟩ : ∃ cs, comment = '/' :: cs := by
        cases comment with
        | nil => cases hcomment
        | cons e cs =>
          obtain rfl := Option.some.inj hcomment
          exact ⟨cs, rfl⟩
      refine absurd (matches_lineComment_iff.2 fun b hb => ?_) (hnot '/' _ rfl)
      rcases List.mem_append.1 hb with hb | hb
      · exact hold b hb
      · rw [List.mem_singleton.1 hb]
        decide
    · obtain rfl := Option.some.inj he
      by_contra hne
      refine hnot e' _ rfl (matches_lineComment_iff.2 fun b hb => ?_)
      rcases List.mem_append.1 hb with hb | hb
      · exact hold b hb
      · rw [List.mem_singleton.1 hb]
        exact ⟨fun h => hne (.inl h), fun h => hne (.inr h)⟩
  · rw [← List.append_assoc] at hz
    rcases closes_of_blank rfl hz with ⟨a, b, hab⟩ | ⟨a, b, hab⟩
    · exact ⟨a, b ++ (comment ++ (behind ++ rest)), by rw [← List.append_assoc, hab]; simp⟩
    · exact ⟨z ++ (front ++ (comment ++ a)), b, by rw [hab]; simp⟩

/-- **Words with a blank in place of a comment**, which becomes one with the blanks beside it. -/
theorem Cuts.blanked {vs us : List (Token × List Char)} {front behind : Option (List Char)}
    {c : Token × List Char}
    (h : Cuts (vs ++ (front.toList.map (Token.space, ·) ++
      c :: (behind.toList.map (Token.space, ·) ++ us))))
    (hc : c.2.head? = some '/') (hvs : ∀ v ∈ vs.getLast?, v.1 ≠ .space)
    (hus : ∀ u ∈ us.head?, u.1 ≠ .space) :
    Cuts (vs ++ (.space, front.getD [] ++ ' ' :: behind.getD []) :: us) := by
  have hspell (o : Option (List Char)) : spell (o.toList.map (Token.space, ·)) = o.getD [] := by
    cases o <;> simp [spell]
  have hblank {o : Option (List Char)} {ws : List (Token × List Char)} (hcuts : Cuts ws)
      (hmem : ∀ w ∈ o.toList.map (Token.space, ·), w ∈ ws) : ∀ d ∈ o.getD [], isBlank d = true := by
    cases o with
    | none => exact fun d hd => by cases hd
    | some s => exact blank_of_space (hcuts.matches _ (hmem (.space, s) (by simp)))
  induction vs with
  | nil =>
    have hcuts : Cuts us := h.of_append.of_append.2.of_append
    -- the new blank takes in the two beside it and ends where no other blank follows
    refine ⟨munch_blanks (by simp) (fun d hd => ?_) (fun d hd => ?_), hcuts⟩
    · simp only [List.mem_append, List.mem_cons] at hd
      rcases hd with hd | rfl | hd
      · exact hblank h (fun w hw => by simp [hw]) d hd
      · rfl
      · exact hblank h (fun w hw => by simp [hw]) d hd
    · cases us with
      | nil => cases hd
      | cons u us =>
        obtain ⟨e, s, hs⟩ := List.exists_cons_of_ne_nil (munch_ne_nil hcuts.1)
        obtain rfl : e = d := by simpa [spell_cons, hs] using hd
        rw [Bool.eq_false_iff]
        intro hblank
        refine hus u rfl (token_of_blank hblank (s := s) ?_)
        rw [← hs]
        exact hcuts.matches u List.mem_cons_self
  | cons v vs ih =>
    rw [List.cons_append] at h ⊢
    refine ⟨?_, ih h.2 fun w hw => hvs w ?_⟩
    · -- a word before it ends where it ended, as it is no blank if it stands right before it
      have hmunch := h.1
      simp only [List.append_assoc, List.cons_append, spell_append, spell_cons, hspell] at hmunch ⊢
      refine munch_before_blank hmunch (hblank h fun w hw => by simp [hw]) hc fun hnil => ?_
      cases vs with
      | nil => exact hvs v rfl
      | cons w vs =>
        rw [spell_cons, List.append_eq_nil_iff] at hnil
        exact absurd hnil.1 (munch_ne_nil h.2.1)
    · rw [List.getLast?_cons, Option.mem_def.1 hw]
      rfl

/-! ### Lexemes -/

/-- The source with a blank in place of a lexeme between others. -/
def blanked (before behind : List Lexeme) : String :=
  String.ofList (texts before ++ ' ' :: texts behind)

/-- The last blank of lexemes, if they end with one, and those before it. -/
theorem Apart.split_last {ls : List Lexeme} (h : Apart ls) :
    ∃ (as : List Lexeme) (o : Option Lexeme), ls = as ++ o.toList ∧ (∀ l ∈ o, l.token = .space) ∧
      ∀ l ∈ as.getLast?, l.token ≠ .space := by
  rcases List.eq_nil_or_concat' ls with rfl | ⟨as, l, rfl⟩
  · exact ⟨[], none, rfl, by simp, by simp⟩
  · by_cases hl : l.token = .space
    · refine ⟨as, some l, rfl, by simpa using hl, fun m hm hspace => ?_⟩
      exact (List.isChain_append.1 h).2.2 m hm l rfl hspace hl
    · exact ⟨as ++ [l], none, by simp, by simp, by simpa using hl⟩

/-- The first blank of lexemes, if they start with one, and those behind it. -/
theorem Apart.split_first {ls : List Lexeme} (h : Apart ls) :
    ∃ (o : Option Lexeme) (bs : List Lexeme), ls = o.toList ++ bs ∧ (∀ l ∈ o, l.token = .space) ∧
      ∀ l ∈ bs.head?, l.token ≠ .space := by
  rcases ls with _ | ⟨l, bs⟩
  · exact ⟨none, [], rfl, by simp, by simp⟩
  · by_cases hl : l.token = .space
    · exact ⟨some l, bs, rfl, by simpa using hl, fun m hm => (List.isChain_cons.1 h).1 m hm hl⟩
    · exact ⟨none, l :: bs, rfl, by simp, by simpa using hl⟩

theorem head_of_comment {s : List Char} {t : Token} (h : t.pattern.Matches s)
    (ht : t = .lineComment ∨ t = .blockComment) : s.head? = some '/' := by
  rcases ht with rfl | rfl
  · obtain ⟨rest, rfl⟩ := matches_lineComment h
    rfl
  · obtain ⟨mid, rfl⟩ := matches_blockComment h
    rfl

end Lexeme

open Lexeme

/-- The node is a blank in which the offset lies. -/
def Node.IsBlankAt (a : Nat) (n : Node) : Prop :=
  n.is .space = true ∧ ∃ s ∈ n.span, s.start ≤ a ∧ a < s.stop

instance (a : Nat) : DecidablePred (Node.IsBlankAt a) := fun n =>
  inferInstanceAs (Decidable (_ ∧ ∃ s ∈ n.span, _))

/-- A blank stands at the end of some lexemes or in front of others. -/
def BesideBlank (before behind : List Lexeme) : Prop :=
  (∃ l ∈ before.getLast?, l.token = .space) ∨ ∃ l ∈ behind.head?, l.token = .space

/-- **The lexemes of a source with a blank in place of a comment** become those of the source if the
comment and the blanks beside it are put back in place of the blank, which is bare if there are
none. -/
theorem tokenize_blanked {source : String} {before behind : List Lexeme} {c : Lexeme}
    (h : tokenize source = .ok (before ++ c :: behind))
    (hc : c.token = .lineComment ∨ c.token = .blockComment) :
    ∃ ls ms, tokenize (blanked before behind) = .ok ls ∧
      Lexeme.Commented (Node.IsBlankAt (width (texts before)))
        (fun n => Node.IsBlankAt (width (texts before)) n ∧ ¬ BesideBlank before behind) ls ms ∧
      ms.map word = (before ++ c :: behind).map word := by
  have hapart := apart_of_tokenize h
  have hbehind : Apart behind := List.IsChain.tail hapart.right
  obtain ⟨as, front, rfl, hfront, has⟩ := hapart.left.split_last
  obtain ⟨back, bs, rfl, hback, hbs⟩ := hbehind.split_first
  obtain ⟨hcuts, -⟩ := tokenize_iff.1 ⟨_, h, rfl⟩
  have hwords {o : Option Lexeme} (ho : ∀ l ∈ o, l.token = .space) :
      o.toList.map word = (o.map (·.text.toList)).toList.map (Token.space, ·) := by
    cases o with
    | none => rfl
    | some l => simp [word, ho l rfl]
  have hsplit : (as ++ front.toList ++ c :: (back.toList ++ bs)).map word =
      as.map word ++ ((front.map (·.text.toList)).toList.map (Token.space, ·) ++
        word c :: ((back.map (·.text.toList)).toList.map (Token.space, ·) ++ bs.map word)) := by
    simp [hwords hfront, hwords hback]
  have hblanked : Cuts (as.map word ++ (.space, (front.map (·.text.toList)).getD [] ++
      ' ' :: (back.map (·.text.toList)).getD []) :: bs.map word) := by
    refine Cuts.blanked (hsplit ▸ hcuts) ?_ ?_ ?_
    · exact head_of_comment (hcuts.matches (word c) (List.mem_map_of_mem (by simp))) hc
    · intro v hv
      rw [List.getLast?_map] at hv
      obtain ⟨l, hl, rfl⟩ := Option.map_eq_some_iff.1 hv
      exact has l hl
    · intro u hu
      rw [List.head?_map] at hu
      obtain ⟨l, hl, rfl⟩ := Option.map_eq_some_iff.1 hu
      exact hbs l hl
  have htexts (o : Option Lexeme) : texts o.toList = (o.map (·.text.toList)).getD [] := by
    cases o <;> simp
  have hspell : spell (as.map word ++ (.space, texts front.toList ++ ' ' :: texts back.toList) ::
      bs.map word) = (blanked (as ++ front.toList) (back.toList ++ bs)).toList := by
    simp [blanked, spell_append, spell_cons, texts]
  rw [← htexts, ← htexts] at hblanked
  obtain ⟨ls, hls, hmap⟩ := tokenize_iff.2 ⟨hblanked, hspell⟩
  obtain ⟨xs, rest, rfl, hxs, hrest⟩ := List.map_eq_append_iff.1 hmap
  obtain ⟨b, ys, rfl, hb, hys⟩ := List.map_eq_cons_iff.1 hrest
  obtain ⟨hspace, htext⟩ := Prod.mk.inj hb
  have hmark : Node.IsBlankAt (width (texts (as ++ front.toList))) b.trivia := by
    -- the blank starts where the text before it ends, and goes beyond the blank in front
    have hsits := (sitAll_cons.1 (sitAll_append.1 (sitAll_of_tokenize hls)).2).1
    refine ⟨(trivia_spec (by rw [hspace]; rfl)).2 hspace, b.span, ?_, ?_⟩
    · simp [Lexeme.trivia, hspace, Lexeme.leaf, Node.span]
    · have hwidth : byteLength b.text =
          width (texts front.toList) + (' '.utf8Size + width (texts back.toList)) := by
        rw [byteLength, htext, width_append]
        rfl
      have hxs : texts xs = texts as := by rw [texts, texts, hxs]
      have hpos : 0 < ' '.utf8Size := by decide
      rw [hsits.span, hwidth, hxs, texts_append, width_append]
      constructor <;> simp only <;> omega
  refine ⟨_, xs ++ ((front.toList ++ c :: back.toList) ++ ys), hls,
    (Commented.refl xs).append (.gap hspace hmark ⟨by simp, ?_⟩ ?_ (.refl ys)), ?_⟩
  · intro g hg
    simp only [List.mem_append, List.mem_cons, Option.mem_toList] at hg
    rcases hg with hg | rfl | hg
    · rw [hfront g hg]
      rfl
    · rcases hc with hc | hc <;> rw [hc] <;> rfl
    · rw [hback g hg]
      rfl
  · rw [or_iff_not_imp_right]
    intro hbare
    rcases not_not.1 fun hno => hbare ⟨hmark, hno⟩ with ⟨l, hl, hspace⟩ | ⟨l, hl, hspace⟩
    · cases front with
      | none => exact absurd hspace (has l (by simpa using hl))
      | some g => exact ⟨g, by simp, hfront g rfl⟩
    · cases back with
      | none => exact absurd hspace (hbs l (by simpa using hl))
      | some g => exact ⟨g, by simp, hback g rfl⟩
  · simp only [List.map_append, List.map_cons, hxs, hys, List.append_assoc, List.cons_append]

end Stylesheet
