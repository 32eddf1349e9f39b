import Stylesheet.Proofs.Syntax.RoundTrip

/-!
# Longest match in another context

A lexeme stays the longest match when the text behind it is changed far enough away. Only strings
and comments hold a colon or a closing parenthesis, and these end at a place of their own: a
string and a block comment at the first closing mark, a line comment at the line break.

* `PrefixFree`: no text of the pattern is longer than another that it starts with.
* `Sown`: a text with characters put in that are in no mark of a comment.
* `munch_change`: a longest match stays one if the change is out of its reach.
* `munch_barrier`: a longest match stays one if a colon or a closing parenthesis lies between it
  and the change.
-/

namespace Stylesheet

open Pattern

namespace Pattern

/-! ### Characters of a pattern -/

/-- Whether a text of the pattern may hold the character. -/
def allows (c : Char) : Pattern → Bool
  | never | blank => false
  | one p => p c
  | seq p q | either p q => p.allows c || q.allows c
  | many p => p.allows c

theorem allows_of_mem {p : Pattern} {s : List Char} (h : Matches p s) {c : Char} (hc : c ∈ s) :
    p.allows c = true := by
  induction h with
  | blank | done => cases hc
  | one hp =>
    obtain rfl := List.mem_singleton.1 hc
    exact hp
  | seq _ _ ih₁ ih₂ =>
    rcases List.mem_append.1 hc with hc | hc
    · simp [allows, ih₁ hc]
    · simp [allows, ih₂ hc]
  | left _ ih => simp [allows, ih hc]
  | right _ ih => simp [allows, ih hc]
  | more _ _ ih₁ ih₂ =>
    rcases List.mem_append.1 hc with hc | hc
    · exact ih₁ hc
    · exact ih₂ hc

/-- Whether a text of the pattern may start with the given text. -/
def starts (p : Pattern) (s : List Char) : Bool :=
  match p.run s with
  | never => false
  | _ => true

theorem starts_of_matches {p : Pattern} {s t : List Char} (h : Matches p (s ++ t)) :
    p.starts s = true := by
  unfold starts
  split
  · rename_i hn
    rw [← matches_run, hn] at h
    exact absurd h not_matches_never
  · rfl

/-! ### Patterns that tell where they end -/

/-- A text of the pattern does not start with a shorter one. -/
def PrefixFree (p : Pattern) : Prop :=
  ∀ s t, Matches p s → Matches p (s ++ t) → t = []

/-- The states of a reader, of which only the last is complete. -/
theorem prefixFree_of_states {p : Pattern} (S : Pattern → Prop) (hp : S p)
    (hstep : ∀ q c, S q → S (q.after c)) (hend : ∀ q, S q → q.matchesEmpty = true → q = blank) :
    p.PrefixFree := by
  intro s t hs ht
  have hrun : ∀ (s : List Char) (q : Pattern), S q → S (q.run s) := by
    intro s
    induction s with
    | nil => exact fun q hq => hq
    | cons c s ih => exact fun q hq => ih _ (hstep q c hq)
  have hblank : p.run s = blank := hend _ (hrun s p hp) ((matches_iff_run p s).1 hs)
  rw [← matches_run, hblank] at ht
  exact matches_blank_iff.1 ht

end Pattern

namespace Token

/-- A character of a quoted text, or two after a backslash. -/
def quotedPart (quote : Char) : Pattern :=
  either (one fun c => c != quote && c != '\\' && c != '\n') (seq (char '\\') (one (· != '\n')))

/-- The text behind the opening quote. -/
def quotedRest (quote : Char) : Pattern := seq (many (quotedPart quote)) (char quote)

theorem quotedRest_after (quote c : Char) (hq : quote ≠ '\\') :
    (quotedRest quote).after c =
      if c = quote then blank
      else if c = '\\' then seq (seq (one (· != '\n')) (many (quotedPart quote))) (char quote)
      else if c = '\n' then never else quotedRest quote := by
  by_cases h₁ : c = quote
  · subst h₁
    simp [quotedRest, quotedPart, Pattern.after, Pattern.char, hq, andThen, orElse, matchesEmpty]
  · by_cases h₂ : c = '\\'
    · subst h₂
      simp [quotedRest, quotedPart, Pattern.after, Pattern.char, Ne.symm hq, andThen, orElse,
        matchesEmpty]
    · by_cases h₃ : c = '\n'
      · subst h₃
        simp [quotedRest, quotedPart, Pattern.after, Pattern.char, andThen, orElse,
          matchesEmpty, h₁]
      · simp [quotedRest, quotedPart, Pattern.after, Pattern.char, andThen, orElse,
          matchesEmpty, h₁, h₂, h₃]

theorem quoted_prefixFree (quote : Char) (hq : quote ≠ '\\') : (quoted quote).PrefixFree := by
  let escaped := seq (seq (one (· != '\n')) (many (quotedPart quote))) (char quote)
  refine prefixFree_of_states
    (fun q => q = quoted quote ∨ q = quotedRest quote ∨ q = escaped ∨ q = blank ∨ q = never)
    (.inl rfl) ?_ ?_
  · rintro q c (rfl | rfl | rfl | rfl | rfl)
    · by_cases hc : c = quote
      · right; left
        simp [quoted, inOrder, Pattern.after, Pattern.char, hc, andThen, matchesEmpty, quotedRest,
          quotedPart]
      · right; right; right; right
        simp [quoted, inOrder, Pattern.after, Pattern.char, hc, andThen, matchesEmpty]
    · rw [quotedRest_after quote c hq]
      split
      · simp
      · split
        · simp [escaped]
        · split <;> simp
    · by_cases hc : c = '\n'
      · right; right; right; right
        simp [escaped, Pattern.after, Pattern.char, hc, andThen, matchesEmpty]
      · right; left
        simp [escaped, Pattern.after, Pattern.char, hc, andThen, matchesEmpty, quotedRest]
    · simp [Pattern.after]
    · simp [Pattern.after]
  · rintro q (rfl | rfl | rfl | rfl | rfl) h
    all_goals simp_all [quoted, inOrder, quotedRest, escaped, Pattern.char, matchesEmpty]

/-! ### Block comments -/

/-- A character inside a block comment, or stars and the character behind them. -/
def commentPart : Pattern :=
  either (one (· != '*')) (seq (oneOrMore (char '*')) (one fun c => c != '*' && c != '/'))

/-- The text of a block comment behind its opening mark. -/
def commentRest : Pattern := seq (many commentPart) (seq (oneOrMore (char '*')) (char '/'))

/-- What may follow a star in a block comment. -/
def commentStar : Pattern :=
  either (seq (seq (many (char '*')) (one fun c => c != '*' && c != '/'))
      (many commentPart) |>.seq (seq (oneOrMore (char '*')) (char '/')))
    (seq (many (char '*')) (char '/'))

theorem commentRest_after (c : Char) :
    commentRest.after c = if c = '*' then commentStar else commentRest := by
  by_cases h : c = '*'
  · subst h
    simp [commentRest, commentPart, commentStar, Pattern.after, Pattern.char, oneOrMore, andThen,
      orElse, matchesEmpty]
  · simp [commentRest, commentPart, Pattern.after, Pattern.char, oneOrMore, andThen, orElse,
      matchesEmpty, h]

theorem commentStar_after (c : Char) :
    commentStar.after c = if c = '*' then commentStar else if c = '/' then blank else commentRest := by
  by_cases h : c = '*'
  · subst h
    simp [commentPart, commentStar, Pattern.after, Pattern.char, oneOrMore, andThen, orElse,
      matchesEmpty]
  · by_cases h' : c = '/'
    · subst h'
      simp [commentPart, commentStar, Pattern.after, Pattern.char, oneOrMore, andThen, orElse,
        matchesEmpty]
    · simp [commentRest, commentPart, commentStar, Pattern.after, Pattern.char, oneOrMore, andThen,
        orElse, matchesEmpty, h, h']

theorem matches_blockComment_iff {s : List Char} :
    blockComment.pattern.Matches ('/' :: '*' :: s) ↔ commentRest.Matches s := by
  rw [← List.singleton_append, ← List.singleton_append (l := s), ← matches_run, ← matches_run]
  rfl

theorem blockComment_prefixFree : blockComment.pattern.PrefixFree := by
  refine prefixFree_of_states
    (fun q => q = blockComment.pattern ∨ q = seq (char '*') commentRest ∨ q = commentRest ∨
      q = commentStar ∨ q = blank ∨ q = never) (.inl rfl) ?_ ?_
  · rintro q c (rfl | rfl | rfl | rfl | rfl | rfl)
    · by_cases hc : c = '/'
      · right; left
        subst hc
        rfl
      · right; right; right; right; right
        simp [pattern, inOrder, literal, Pattern.after, Pattern.char, hc, andThen, matchesEmpty]
    · by_cases hc : c = '*'
      · right; right; left
        simp [Pattern.after, Pattern.char, hc, andThen, matchesEmpty, commentRest]
      · right; right; right; right; right
        simp [Pattern.after, Pattern.char, hc, andThen, matchesEmpty]
    · rw [commentRest_after]
      split <;> simp
    · rw [commentStar_after]
      split
      · simp
      · split <;> simp
    · simp [Pattern.after]
    · simp [Pattern.after]
  · rintro q (rfl | rfl | rfl | rfl | rfl | rfl) h
    all_goals simp_all [pattern, literal, inOrder, commentRest, commentStar, Pattern.char,
      oneOrMore, matchesEmpty]

/-- A closing mark starts with the first character of a text, or it stands in the rest of it. -/
theorem mark_cons {c : Char} {s : List Char} (h : ∃ a b, c :: s = a ++ '*' :: '/' :: b) :
    (c = '*' ∧ ∃ b, s = '/' :: b) ∨ ∃ a b, s = a ++ '*' :: '/' :: b := by
  obtain ⟨a, b, h⟩ := h
  rcases a with _ | ⟨d, a⟩
  · obtain ⟨hc, hs⟩ := List.cons.inj h
    exact .inl ⟨hc, b, hs⟩
  · exact .inr ⟨a, b, (List.cons.inj h).2⟩

/-- A closing mark ends the comment, or an earlier one does. -/
theorem exists_commentRest {s : List Char} :
    ((∃ a b, s = a ++ '*' :: '/' :: b) → ∃ u v, s = u ++ v ∧ commentRest.Matches u) ∧
      (((∃ b, s = '/' :: b) ∨ ∃ a b, s = a ++ '*' :: '/' :: b) →
        ∃ u v, s = u ++ v ∧ commentStar.Matches u) := by
  induction s with
  | nil => simp
  | cons c s ih =>
    obtain ⟨ih₁, ih₂⟩ := ih
    constructor
    · intro hs
      have hmark := mark_cons hs
      by_cases hc : c = '*'
      · obtain ⟨u, v, rfl, hu⟩ := ih₂ (hmark.imp_left And.right)
        refine ⟨c :: u, v, rfl, ?_⟩
        rw [← matches_after, commentRest_after, if_pos hc]
        exact hu
      · obtain ⟨u, v, rfl, hu⟩ := ih₁ (hmark.resolve_left fun h => hc h.1)
        refine ⟨c :: u, v, rfl, ?_⟩
        rw [← matches_after, commentRest_after, if_neg hc]
        exact hu
    · intro hs
      by_cases hc' : c = '/'
      · refine ⟨[c], s, rfl, ?_⟩
        rw [← matches_after, commentStar_after, if_neg (by rw [hc']; decide), if_pos hc']
        exact .blank
      · have hmark := mark_cons (hs.resolve_left fun ⟨b, hb⟩ => hc' (List.cons.inj hb).1)
        by_cases hc : c = '*'
        · obtain ⟨u, v, rfl, hu⟩ := ih₂ (hmark.imp_left And.right)
          refine ⟨c :: u, v, rfl, ?_⟩
          rw [← matches_after, commentStar_after, if_pos hc]
          exact hu
        · obtain ⟨u, v, rfl, hu⟩ := ih₁ (hmark.resolve_left fun h => hc h.1)
          refine ⟨c :: u, v, rfl, ?_⟩
          rw [← matches_after, commentStar_after, if_neg hc, if_neg hc']
          exact hu

/-! ### Tokens by their first characters -/

theorem eq_of_starts {t : Token} :
    (t.pattern.starts ['"'] = true → t = stringDouble) ∧
    (t.pattern.starts ['\''] = true → t = stringSingle) ∧
    (t.pattern.starts ['/', '/'] = true → t = lineComment) ∧
    (t.pattern.starts ['/', '*'] = true → t = blockComment) := by
  refine ⟨?_, ?_, ?_, ?_⟩ <;> cases t <;> decide

/-- A text that starts a string is the whole string, whatever lexeme it is. -/
theorem nil_of_quoted {t t' : Token} {quote : Char} (hq : quote ≠ '\\')
    (hp : t'.pattern = quoted quote) (hstarts : t.pattern.starts [quote] = true → t = t')
    {u v : List Char} (hu : u ≠ []) (h : t.pattern.Matches u) (h' : t'.pattern.Matches (u ++ v)) :
    v = [] := by
  obtain ⟨c, u, rfl⟩ := List.exists_cons_of_ne_nil hu
  rw [hp] at h'
  obtain ⟨a, b, hab, ha, -⟩ := matches_inOrder_cons.1 h'
  rw [matches_char_iff.1 ha] at hab
  obtain rfl := (List.cons.inj hab).1
  obtain rfl := hstarts (starts_of_matches (s := [c]) (t := u) h)
  rw [hp] at h
  exact quoted_prefixFree c hq _ _ h h'

/-- Strings and comments. -/
def holdsAny (t : Token) : Bool :=
  t == stringDouble || t == stringSingle || t == lineComment || t == blockComment

/-- **Only strings and comments** hold a colon or a closing parenthesis behind other text. -/
theorem holdsAny_of_matches {t : Token} {c : Char} {s : List Char}
    (h : t.pattern.Matches (c :: s)) (hs : ':' ∈ s ∨ ')' ∈ s) : t.holdsAny = true := by
  have hallows : t.pattern.allows ':' = true ∨ t.pattern.allows ')' = true :=
    hs.imp (fun hs => allows_of_mem h (List.mem_cons_of_mem _ hs))
      fun hs => allows_of_mem h (List.mem_cons_of_mem _ hs)
  have hone {d : Char} (h : (Pattern.char d).Matches (c :: s)) : False := by
    have hnil : s = [] := by simpa using congrArg List.tail (matches_char_iff.1 h)
    simp [hnil] at hs
  cases t
  case colon | closeParen => exact (hone h).elim
  case stringDouble | stringSingle | lineComment | blockComment => rfl
  all_goals exact absurd hallows (by decide)

/-- A line comment goes on up to a line break. -/
theorem matches_lineComment_iff {s : List Char} :
    lineComment.pattern.Matches ('/' :: '/' :: s) ↔ ∀ c ∈ s, c ≠ '\r' ∧ c ≠ '\n' := by
  rw [← List.singleton_append, ← List.singleton_append (l := s), ← matches_run, ← matches_run]
  show (many (one fun c => c != '\r' && c != '\n')).Matches s ↔ _
  induction s with
  | nil => simp [Matches.done]
  | cons c s ih =>
    rw [matches_many_cons]
    constructor
    · rintro ⟨a, b, rfl, ha, hb⟩
      obtain ⟨d, hd, hc⟩ := matches_one_iff.1 ha
      obtain ⟨rfl, rfl⟩ : c = d ∧ a = [] := by simpa using hd
      have := ih.1 hb
      simpa using ⟨by simpa using hc, this⟩
    · intro h
      refine ⟨[], s, rfl, .one ?_, ih.2 fun d hd => h d (List.mem_cons_of_mem _ hd)⟩
      simpa using h c List.mem_cons_self

end Token

/-! ### A change behind a lexeme -/

/-- A text with characters put in that are in no mark of a comment. -/
inductive Sown : List Char → List Char → Prop
  | nil : Sown [] []
  | keep {s s' : List Char} (c : Char) : Sown s s' → Sown (c :: s) (c :: s')
  | sow {s s' : List Char} {c : Char} : c ≠ '*' → c ≠ '/' → Sown s s' → Sown s (c :: s')

theorem Sown.append_left {s s' : List Char} (h : Sown s s') (c : List Char) :
    Sown (c ++ s) (c ++ s') := by
  induction c with
  | nil => exact h
  | cons d c ih => exact .keep d ih

theorem Sown.sow_all {s s' c : List Char} (hc : ∀ d ∈ c, d ≠ '*' ∧ d ≠ '/') (h : Sown s s') :
    Sown s (c ++ s') := by
  induction c with
  | nil => exact h
  | cons d c ih =>
    have hd := hc d List.mem_cons_self
    exact .sow hd.1 hd.2 (ih fun e he => hc e (List.mem_cons_of_mem _ he))

/-- What is put in closes no comment. -/
theorem Sown.closes {s s' : List Char} (h : Sown s s')
    (hs : ∃ a b, s' = a ++ '*' :: '/' :: b) : ∃ a b, s = a ++ '*' :: '/' :: b := by
  induction h with
  | nil =>
    obtain ⟨a, b, hs⟩ := hs
    simp at hs
  | @keep s s' c h ih =>
    rcases Token.mark_cons hs with ⟨rfl, b, rfl⟩ | hs
    · -- the slash behind the star was there before
      cases h with
      | keep _ h => exact ⟨[], _, rfl⟩
      | sow _ hne _ => exact absurd rfl hne
    · obtain ⟨a, b, rfl⟩ := ih hs
      exact ⟨c :: a, b, rfl⟩
  | @sow s s' c hstar _ _ ih => exact ih ((Token.mark_cons hs).resolve_left fun h => hstar h.1)

namespace Lexeme

open Token

/-- **A change far enough away**: what is the longest match before one text is so before another,
if only strings and comments could reach into the other text, no comment could start at its front
or go on there, and it closes no comment that was open before. -/
theorem munch_change {t : Token} {text c s s' : List Char}
    (h : munch start (text ++ (c ++ s)) = some (t, text, c ++ s))
    (hheld : ∀ (t' : Token) d w v, s' = d :: (w ++ v) →
      t'.pattern.Matches (text ++ (c ++ d :: w)) → t'.holdsAny = true)
    (hmarks : c = [] → ∀ d ∈ s'.head?, d ≠ '/' ∧ d ≠ '*')
    (hline : t = .lineComment → c = [] → ∀ d ∈ s'.head?, d = '\r' ∨ d = '\n')
    (hclose : ∀ x, (∃ a b, x ++ s' = a ++ '*' :: '/' :: b) → ∃ a b, x ++ s = a ++ '*' :: '/' :: b) :
    munch start (text ++ (c ++ s')) = some (t, text, c ++ s') := by
  obtain ⟨-, hne, htok, hlong⟩ := munch_eq_some_iff.1 h
  refine munch_eq_some_iff.2 ⟨rfl, hne, htok, ?_⟩
  intro u v huv hu
  obtain ⟨x, y, rfl⟩ := List.exists_cons_of_ne_nil hne
  have hmatch := matches_of_tokenOf htok
  rcases List.append_eq_append_iff.1 huv with ⟨w, rfl, rfl⟩ | ⟨w, rfl, rfl⟩
  · rcases w with _ | ⟨d, w⟩
    · rw [List.append_nil] at hu ⊢
      exact hlong c s rfl hu
    -- a longer match would reach into the other text
    refine tokenOf_eq_none_iff.2 fun t' hm => ?_
    have hquote {q : Char} (hq : q ≠ '\\') (hp : t'.pattern = quoted q)
        (ht : t.pattern.starts [q] = true → t = t') : False :=
      hu (nil_of_quoted hq hp ht hne hmatch hm)
    have hnot (u v : List Char) (huv : c ++ s = u ++ v) (hu : u ≠ []) (t : Token)
        (ht : t.pattern.Matches (x :: y ++ u)) : False :=
      tokenOf_eq_none_iff.1 (hlong u v huv hu) t ht
    have hfirst {e : Char} {rest : List Char} (he : e = '/' ∨ e = '*')
        (h : c ++ d :: w = e :: rest) : ∃ c', c = e :: c' := by
      rcases c with _ | ⟨e', c⟩
      · have hd := hmarks rfl d rfl
        rw [(List.cons.inj h).1] at hd
        rcases he with rfl | rfl
        · exact absurd rfl hd.1
        · exact absurd rfl hd.2
      · exact ⟨c, by rw [(List.cons.inj h).1]⟩
    cases t' with
    | stringDouble => exact hquote (by decide) rfl eq_of_starts.1
    | stringSingle => exact hquote (by decide) rfl eq_of_starts.2.1
    | lineComment =>
      obtain ⟨rest, hrest⟩ := matches_lineComment hm
      obtain ⟨rfl, htail⟩ := List.cons.inj hrest
      rcases y with _ | ⟨e, y⟩
      · -- the match was a single slash, and the other one stands before the change
        obtain ⟨c', rfl⟩ := hfirst (.inl rfl) (show c ++ d :: w = '/' :: rest from htail)
        refine hnot ['/'] (c' ++ s) rfl (List.cons_ne_nil _ _) .lineComment ?_
        exact matches_lineComment_iff.2 nofun
      · -- the match was a line comment, which would have gone on before the change already
        obtain rfl : e = '/' := (List.cons.inj htail).1
        have hbreak := matches_lineComment_iff.1 hm
        have ht := eq_of_starts.2.2.1 (starts_of_matches (s := ['/', '/']) (t := y) hmatch)
        rcases c with _ | ⟨e, c'⟩
        · rcases hline ht rfl d rfl with hd | hd
          · exact (hbreak d (by simp)).1 hd
          · exact (hbreak d (by simp)).2 hd
        refine hnot [e] (c' ++ s) rfl (List.cons_ne_nil _ _) .lineComment ?_
        refine matches_lineComment_iff.2 fun b hb => hbreak b ?_
        rcases List.mem_append.1 hb with hb | hb
        · simp [hb]
        · simp [List.mem_singleton.1 hb]
    | blockComment =>
      obtain ⟨mid, hrest⟩ := matches_blockComment hm
      obtain ⟨rfl, htail⟩ := List.cons.inj hrest
      rcases y with _ | ⟨e, y⟩
      · -- the match was a single slash, and there was a comment before the change as well
        have htail : c ++ d :: w = '*' :: (mid ++ ['*', '/']) := htail
        obtain ⟨c', rfl⟩ := hfirst (.inr rfl) htail
        have hmid : c' ++ d :: w = mid ++ ['*', '/'] := (List.cons.inj htail).2
        have hend : c' ++ (d :: w ++ v) = mid ++ '*' :: '/' :: v := by
          rw [← List.append_assoc, hmid]
          simp
        obtain ⟨u, v', hsplit, hu⟩ := exists_commentRest.1 (hclose c' ⟨mid, v, hend⟩)
        refine hnot ('*' :: u) v' (by simp [hsplit]) (List.cons_ne_nil _ _) .blockComment ?_
        exact matches_blockComment_iff.2 hu
      · -- the match was a block comment, which is at its end
        obtain rfl : e = '*' := (List.cons.inj htail).1
        obtain rfl := eq_of_starts.2.2.2 (starts_of_matches (s := ['/', '*']) (t := y) hmatch)
        exact hu (blockComment_prefixFree _ _ hmatch hm)
    | _ => cases hheld _ d w v rfl hm
  · exact hlong u (w ++ s) (by simp) hu

/-- **A change behind a mark**: what is the longest match before one text is so before another, if
a colon comes before the two differ or a closing parenthesis where they do. -/
theorem munch_barrier {t : Token} {text c s s' : List Char}
    (h : munch start (text ++ (c ++ s)) = some (t, text, c ++ s))
    (hb : ':' ∈ c ∨ ∃ r, s' = ')' :: r) (hline : t = .lineComment → c ≠ []) (hs : Sown s s') :
    munch start (text ++ (c ++ s')) = some (t, text, c ++ s') := by
  refine munch_change h (fun t' d w v hs' hm => ?_) (fun hc d hd => ?_)
    (fun ht hc => absurd hc (hline ht)) fun x => (hs.append_left x).closes
  · obtain ⟨x, y, rfl⟩ := List.exists_cons_of_ne_nil (munch_ne_nil h)
    refine holdsAny_of_matches (s := y ++ (c ++ d :: w)) hm ?_
    refine hb.imp (fun hc => by simp [hc]) fun ⟨r, hr⟩ => ?_
    simp [(List.cons.inj (hs'.symm.trans hr)).1]
  · obtain ⟨r, rfl⟩ := hb.resolve_left (by simp [hc])
    obtain rfl := Option.some.inj hd
    decide

end Lexeme
end Stylesheet
