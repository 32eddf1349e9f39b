import Mathlib.Data.List.Chain
import Stylesheet.Export
import Stylesheet.Proofs.Syntax.Statements
import Stylesheet.Proofs.Syntax.RoundTrip
import Stylesheet.Proofs.Syntax.Relexing
import Stylesheet.Proofs.Syntax.Kinds

/-!
# The shapes of nodes

A node of a kind has the children that its readers expect: a rule a selector and a block, a
declaration a property, a colon and a value, a function a name and its arguments. Names and
literals are leaves, and nothing else is. Blanks are as long as they can be, so that no two of
them follow each other; a declaration asks for no more than that.

* `Node.WellFormed`: the shape of one node.
* `Lexeme.apart_of_tokenize`: no blank follows a blank.
* `Statements.sound`: all nodes of statements are well formed.
* `wellFormed_of_parse`: all nodes of a source are, and no reader misses what it looks for.
-/

namespace Stylesheet

/-- The kinds that carry text: names, literals, marks, blanks and comments. -/
def Kind.carriesText : Kind → Bool
  | .selector | .atKeyword | .variable | .identifier | .number | .operator | .punctuation
  | .stringDouble | .stringSingle | .colorHex | .flag | .space | .lineComment | .blockComment => true
  | _ => false

namespace Node

/-! ### Shapes -/

/-- What stands in a stylesheet or in a block. -/
def IsStatement (n : Node) : Prop :=
  n.isTrivia = true ∨ n.isLeaf .punctuation ";" = true ∨
    n.kind = .atRule ∨ n.kind = .declaration ∨ n.kind = .rule

/-- The kinds of what stands in a value or in brackets. -/
def itemKinds : List Kind :=
  [.space, .lineComment, .blockComment, .variable, .number, .stringDouble, .stringSingle, .colorHex,
    .flag, .operator, .punctuation, .atKeyword, .identifier, .function, .parentheses,
    .interpolation]

/-- What stands in a value or in brackets. -/
structure IsItem (n : Node) : Prop where
  kind : n.kind ∈ itemKinds
  noSemicolon : n.isLeaf .punctuation ";" = false

/-- The children of a declaration, one by one. -/
structure DeclarationParts where
  property : Node
  /-- The blank before the colon. -/
  before : Option Node
  colon : Node
  /-- The blank behind the colon. -/
  behind : Option Node
  value : Node
  /-- The flags, with blanks. -/
  flags : List Node
  semicolon : Option Node

namespace DeclarationParts

def children (d : DeclarationParts) : List Node :=
  d.property :: (d.before.toList ++ d.colon ::
    (d.behind.toList ++ d.value :: (d.flags ++ d.semicolon.toList)))

/-- Each part is what it is named for. -/
structure Fit (d : DeclarationParts) : Prop where
  property : d.property.kind = .property
  before : ∀ n ∈ d.before, n.kind = .space
  colon : d.colon.isLeaf .punctuation ":" = true
  behind : ∀ n ∈ d.behind, n.kind = .space
  value : d.value.kind = .value
  flags : ∀ n ∈ d.flags, n.kind = .space ∨ n.kind = .flag
  semicolon : ∀ n ∈ d.semicolon, n.isLeaf .punctuation ";" = true

end DeclarationParts

/-- The items of the value of a declaration. -/
structure IsValue (ns : List Node) : Prop where
  nonempty : ns ≠ []
  first : ∀ n ∈ ns.head?, n.kind ≠ .space
  last : ∀ n ∈ ns.getLast?, n.kind ≠ .space
  items : ∀ n ∈ ns, n.IsItem
  noFlag : ∀ n ∈ ns, n.kind ≠ .flag

/-- What the children of a node of a kind are. -/
def HasShape : Kind → List Node → Prop
  | .stylesheet, ns | .block, ns => ∀ n ∈ ns, n.IsStatement
  | .rule, ns => ∃ selector block, ns = [selector, block] ∧ selector.kind = .selector ∧
      block.kind = .block
  | .declaration, ns => ∃ d : DeclarationParts, ns = d.children ∧ d.Fit
  | .property, ns => (∃ v, ns = [v] ∧ v.kind = .variable) ∨
      (ns ≠ [] ∧ ∀ n ∈ ns, n.kind = .identifier ∨ n.kind = .interpolation)
  | .value, ns => IsValue ns
  | .function, ns => ∃ name arguments, ns = [name, arguments] ∧ name.kind = .identifier ∧
      arguments.kind = .arguments
  | .atRule, ns => ∃ keyword rest, ns = keyword :: rest ∧ keyword.kind = .atKeyword ∧
      keyword.text ≠ "" ∧
      ∀ n ∈ rest.dropLast, n.kind ≠ .block ∧ n.isLeaf .punctuation ";" = false
  | .arguments, ns | .parentheses, ns | .interpolation, ns => ∀ n ∈ ns, n.IsItem
  | .other _, _ => False
  -- the kinds that carry text have no children
  | _, ns => ns = []

/-- **The shape of a node**: text or the children that its kind asks for. -/
structure WellFormed (n : Node) : Prop where
  text : n.text?.isSome = n.kind.carriesText
  shape : HasShape n.kind n.children

/-- Every one of some nodes and all below it are well formed. -/
def SoundAll (ns : List Node) : Prop := ∀ m ∈ nodesAll ns, m.WellFormed

/-- The node and all below it are well formed. -/
def Sound (n : Node) : Prop := ∀ m ∈ n.nodes, m.WellFormed

@[simp] theorem soundAll_nil : SoundAll [] := nofun

@[simp] theorem soundAll_cons {n : Node} {ns : List Node} :
    SoundAll (n :: ns) ↔ n.Sound ∧ SoundAll ns := by
  simp only [SoundAll, Sound, nodesAll, List.forall_mem_append]

@[simp] theorem soundAll_append {ms ns : List Node} :
    SoundAll (ms ++ ns) ↔ SoundAll ms ∧ SoundAll ns := by
  induction ms with
  | nil => simp
  | cons m ms ih => simp [ih, and_assoc]

theorem soundAll_map {f : Lexeme → Node} (hf : ∀ l, (f l).Sound) (ls : List Lexeme) :
    SoundAll (ls.map f) := by
  induction ls with
  | nil => simp
  | cons l ls ih => simp [hf l, ih]

theorem sound_leaf {k : Kind} {t : String} {s : Option Span} (hk : k.carriesText = true) :
    (leaf k t s).Sound := by
  intro m hm
  obtain rfl := List.mem_singleton.1 hm
  refine ⟨by simp [text?, kind, hk], ?_⟩
  cases k <;> first | rfl | cases hk

theorem sound_single {k : Kind} {n : Node} {s : Option Span} (hk : k.carriesText = false)
    (hshape : HasShape k [n]) (hn : n.Sound) : (single k n s).Sound := by
  intro m hm
  rcases List.mem_cons.1 hm with rfl | hm
  · exact ⟨by simp [text?, kind, hk], hshape⟩
  · exact hn m hm

theorem sound_sequence {k : Kind} {ns : List Node} {s : Option Span} (hk : k.carriesText = false)
    (hshape : HasShape k ns) (hns : SoundAll ns) : (sequence k ns s).Sound := by
  intro m hm
  rcases List.mem_cons.1 hm with rfl | hm
  · exact ⟨by simp [text?, kind, hk], hshape⟩
  · exact hns m hm

end Node

/-! ### Blanks are apart -/

namespace Pattern

/-- A text of one or more characters of a class. -/
theorem matches_oneOrMore_one {p : Char → Bool} {s : List Char} (hne : s ≠ [])
    (h : ∀ c ∈ s, p c = true) : Matches (oneOrMore (one p)) s := by
  obtain ⟨c, s, rfl⟩ := List.exists_cons_of_ne_nil hne
  have hmany : Matches (many (one p)) s := by
    replace h : ∀ d ∈ s, p d = true := fun d hd => h d (List.mem_cons_of_mem _ hd)
    clear hne
    induction s with
    | nil => exact (matchesEmpty_iff _).1 rfl
    | cons d s ih =>
      exact matches_many_cons.2 ⟨[], s, rfl, matches_one_iff.2 ⟨d, rfl, h d List.mem_cons_self⟩,
        ih fun e he => h e (List.mem_cons_of_mem _ he)⟩
  exact matches_seq_iff.2 ⟨[c], s, rfl, matches_one_iff.2 ⟨c, rfl, h c List.mem_cons_self⟩, hmany⟩

end Pattern

namespace Lexeme

/-- No blank follows a blank. -/
def Apart (ls : List Lexeme) : Prop :=
  ls.IsChain fun l m => l.token = .space → m.token ≠ .space

theorem Apart.left {ls ms : List Lexeme} (h : Apart (ls ++ ms)) : Apart ls := List.IsChain.left_of_append h

theorem Apart.right {ls ms : List Lexeme} (h : Apart (ls ++ ms)) : Apart ms :=
  List.IsChain.right_of_append h

/-- Blanks that are apart are at most one. -/
theorem Apart.eq_toList {ls : List Lexeme} (h : Apart ls) (hs : ∀ l ∈ ls, l.token = .space) :
    ∃ o : Option Lexeme, ls = o.toList := by
  rcases ls with _ | ⟨l, _ | ⟨m, ls⟩⟩
  · exact ⟨none, rfl⟩
  · exact ⟨some l, rfl⟩
  · have hm := (List.isChain_cons_cons.1 h).1 (hs l (by simp))
    exact absurd (hs m (by simp)) hm

/-- **The blanks of a source** are as long as they can be. -/
theorem apart_of_tokenize {source : String} {ls : List Lexeme} (h : tokenize source = .ok ls) :
    Apart ls := by
  obtain ⟨hc, -⟩ := tokenize_iff.1 ⟨ls, h, rfl⟩
  clear h
  induction ls with
  | nil => exact List.isChain_nil
  | cons l ls ih =>
    cases ls with
    | nil => exact List.isChain_singleton l
    | cons m ls =>
      refine List.isChain_cons_cons.2 ⟨fun hl hm => ?_, ih hc.2⟩
      obtain ⟨-, hne, -, hlong⟩ := munch_eq_some_iff.1 hc.1
      have hblank {n : Lexeme} (hn : n ∈ l :: m :: ls) (ht : n.token = .space) :
          ∀ c ∈ n.text.toList, Token.isBlank c = true := by
        intro c hcn
        have hn := hc.matches _ (List.mem_map_of_mem hn)
        rw [show n.word.1 = .space from ht] at hn
        simpa [Token.pattern, Pattern.oneOrMore, Pattern.allows] using Pattern.allows_of_mem hn hcn
      have hm' := hc.2.1
      -- both texts together would be a longer blank
      have hnone := hlong m.text.toList (spell (ls.map word)) rfl (munch_ne_nil hm')
      refine tokenOf_eq_none_iff.1 hnone .space ?_
      refine Pattern.matches_oneOrMore_one (by simpa using fun h => absurd h hne) fun c hc => ?_
      rcases List.mem_append.1 hc with hc | hc
      · exact hblank (by simp) hl c hc
      · exact hblank (by simp) hm c hc

end Lexeme

open Lexeme Node

/-! ### Values -/

/-- A token of a single character is told by it. -/
theorem Lexeme.Genuine.token_eq_iff {l : Lexeme} (h : l.Genuine) {t : Token} {c : Char}
    (ht : t.pattern = Pattern.char c) : l.token = t ↔ l.text = String.singleton c := by
  have hchar : l.text = String.singleton c ↔ t.pattern.Matches l.text.toList := by
    rw [ht, Pattern.matches_char_iff, ← String.toList_inj, String.toList_singleton]
  rw [hchar]
  exact ⟨fun heq => heq ▸ h, Token.eq_of_matches h⟩

theorem Lexeme.isLeaf_leaf (l : Lexeme) (k : Kind) (t : String) :
    (l.leaf k).isLeaf k t = true ↔ l.text = t := by
  simp [isLeaf, Lexeme.leaf, Node.is, Node.kind, Node.text?]

@[simp] theorem Lexeme.kind_leaf (k : Kind) (l : Lexeme) : (l.leaf k).kind = k := rfl

@[simp] theorem Lexeme.kind_inner (k : Kind) (front back : Nat) (l : Lexeme) :
    (l.inner k front back).kind = k := rfl

theorem Node.IsItem.of_kind {n : Node} (hk : n.kind ∈ itemKinds) (hp : n.kind ≠ .punctuation) :
    n.IsItem :=
  ⟨hk, by simp [isLeaf, Node.is, hp]⟩

theorem trivia_sound (l : Lexeme) : l.trivia.Sound := by
  unfold Lexeme.trivia
  split <;> exact sound_leaf rfl

theorem item?_sound {l : Lexeme} {n : Node} (hl : l.Genuine) (hn : l.item? = some n) :
    n.Sound ∧ n.IsItem := by
  have hmark (ht : l.token ≠ .semicolon) : (l.leaf .punctuation).IsItem := by
    refine ⟨show Kind.punctuation ∈ itemKinds by decide, ?_⟩
    rw [Bool.eq_false_iff, Ne, l.isLeaf_leaf]
    exact fun h => ht ((hl.token_eq_iff (c := ';') rfl).2 h)
  obtain ⟨t, text, span⟩ := l
  cases t <;> simp only [item?, trivia, reduceCtorEq, Option.some.injEq] at hn <;> subst hn
  case colon | comma | delimiter => exact ⟨sound_leaf rfl, hmark (by simp)⟩
  all_goals exact ⟨sound_leaf rfl, .of_kind (by simp [itemKinds]) (by simp)⟩

namespace Parse

theorem Opening.node_sound {o : Opening} {inside : List Node} (close : Lexeme)
    (hin : SoundAll inside) (hitems : ∀ n ∈ inside, n.IsItem) :
    (o.node inside close).Sound ∧ (o.node inside close).IsItem := by
  cases o with
  | parentheses m | interpolation m =>
    refine ⟨sound_sequence rfl hitems hin, .of_kind ?_ ?_⟩
    · simp [Opening.node, Node.kind, itemKinds]
    · simp [Opening.node, Node.kind]
  | call n m =>
    refine ⟨sound_sequence rfl ⟨_, _, rfl, rfl, rfl⟩ ?_, .of_kind ?_ ?_⟩
    · have hin : (Node.sequence .arguments inside (some ⟨m.span.start, close.span.stop⟩)).Sound :=
        sound_sequence rfl hitems hin
      exact soundAll_cons.2 ⟨sound_leaf rfl, soundAll_cons.2 ⟨hin, soundAll_nil⟩⟩
    · simp [Opening.node, Node.kind, itemKinds]
    · simp [Opening.node, Node.kind]

/-- **The items of a value** are well formed. -/
theorem Items.sound {stop : Stop} {ls : List Lexeme} {ns : List Node} (h : Items stop ls ns)
    (hg : ∀ l ∈ ls, l.Genuine) : SoundAll ns ∧ ∀ n ∈ ns, n.IsItem := by
  induction h with
  | nil => exact ⟨soundAll_nil, nofun⟩
  | @leaf stop l n ls ns _ hn _ _ ih =>
    obtain ⟨hsound, hitem⟩ := item?_sound (hg l List.mem_cons_self) hn
    obtain ⟨hall, hitems⟩ := ih fun m hm => hg m (List.mem_cons_of_mem _ hm)
    exact ⟨soundAll_cons.2 ⟨hsound, hall⟩, List.forall_mem_cons.2 ⟨hitem, hitems⟩⟩
  | @bracket stop o ms ls inside ns close _ _ _ _ ih₁ ih₂ =>
    obtain ⟨hin, hitems⟩ := ih₁ fun m hm => hg m (by simp [hm])
    obtain ⟨hall, hmore⟩ := ih₂ fun m hm => hg m (by simp [hm])
    obtain ⟨hsound, hitem⟩ := Opening.node_sound (o := o) close hin hitems
    exact ⟨soundAll_cons.2 ⟨hsound, hall⟩, List.forall_mem_cons.2 ⟨hitem, hmore⟩⟩

/-- A value does not start with a blank where its lexemes do not. -/
theorem Items.first_space {stop : Stop} {ls : List Lexeme} {ns : List Node} (h : Items stop ls ns)
    (hls : first ls ≠ some .space) : ∀ n ∈ ns.head?, n.kind ≠ .space := by
  cases h with
  | nil => nofun
  | @leaf _ l n ls ns _ hn _ _ =>
    simp only [List.head?_cons, Option.mem_def, Option.some.injEq, forall_eq']
    obtain ⟨t, text, span⟩ := l
    cases t <;> simp only [item?, trivia, reduceCtorEq, Option.some.injEq] at hn <;> subst hn
    case space => exact absurd rfl hls
    all_goals simp
  | @bracket _ o _ _ _ _ _ _ _ _ _ =>
    simp only [List.head?_cons, Option.mem_def, Option.some.injEq, forall_eq']
    cases o <;> simp [Opening.node, Node.kind]

/-- A value in a declaration has no flag. -/
theorem Items.noFlag {ls : List Lexeme} {ns : List Node} (h : Items .declaration ls ns) :
    ∀ n ∈ ns, n.kind ≠ .flag := by
  generalize hstop : Stop.declaration = stop at h
  induction h with
  | nil => nofun
  | @leaf stop l n ls ns hs hn _ _ ih =>
    subst hstop
    refine List.forall_mem_cons.2 ⟨?_, ih rfl⟩
    obtain ⟨t, text, span⟩ := l
    cases t <;> simp only [item?, trivia, reduceCtorEq, Option.some.injEq] at hn <;> subst hn
    case flag => cases hs
    all_goals simp
  | @bracket stop o _ _ _ _ _ _ _ _ _ _ ih =>
    refine List.forall_mem_cons.2 ⟨?_, ih hstop⟩
    cases o <;> simp [Opening.node, Node.kind]

/-! ### Declarations -/

theorem PropertyParts.sound {ls : List Lexeme} {ns : List Node} (h : PropertyParts ls ns)
    (hg : ∀ l ∈ ls, l.Genuine) :
    SoundAll ns ∧ ∀ n ∈ ns, n.kind = .identifier ∨ n.kind = .interpolation := by
  induction h with
  | nil => exact ⟨soundAll_nil, nofun⟩
  | word _ _ ih =>
    obtain ⟨hall, hkinds⟩ := ih fun m hm => hg m (List.mem_cons_of_mem _ hm)
    exact ⟨soundAll_cons.2 ⟨sound_leaf rfl, hall⟩, List.forall_mem_cons.2 ⟨.inl rfl, hkinds⟩⟩
  | @interpolation mark close ms ls inside ns _ hi _ _ ih =>
    obtain ⟨hin, hitems⟩ := hi.sound fun m hm => hg m (by simp [hm])
    obtain ⟨hall, hkinds⟩ := ih fun m hm => hg m (by simp [hm])
    obtain ⟨hsound, -⟩ := Opening.node_sound (o := .interpolation mark) close hin hitems
    exact ⟨soundAll_cons.2 ⟨hsound, hall⟩, List.forall_mem_cons.2 ⟨.inr rfl, hkinds⟩⟩

theorem Property.sound {ls : List Lexeme} {n : Node} (h : Property ls n)
    (hg : ∀ l ∈ ls, l.Genuine) : n.Sound ∧ n.kind = .property := by
  cases h with
  | ofVariable _ => exact ⟨sound_single rfl (.inl ⟨_, rfl, rfl⟩) (sound_leaf rfl), rfl⟩
  | ofParts hp hne =>
    obtain ⟨hall, hkinds⟩ := hp.sound hg
    exact ⟨sound_sequence rfl (.inr ⟨hne, hkinds⟩) hall, rfl⟩

namespace Pieces

variable {p : Pieces} {name its : List Lexeme}

/-- The value has neither a blank in front nor one at the end, and it is not empty. -/
theorem Fits.isValue (h : p.Fits name its) (hg : ∀ l ∈ its, l.Genuine)
    (hfirst : first its ≠ some .space) : IsValue p.value := by
  obtain ⟨vs, ts, rfl, hvs, -⟩ := h.split
  refine ⟨h.value, hvs.first_space ?_, ?_, (hvs.sound fun l hl => hg l (List.mem_append_left _ hl)).2,
    hvs.noFlag⟩
  · rwa [first_append (hvs.ne_nil h.value)] at hfirst
  · intro n hn hspace
    rw [Pieces.value, List.getLast?_reverse] at hn
    have := List.head?_dropWhile_not (fun m : Node => m.is .space) p.found.reverse
    rw [hn] at this
    simp [Node.is, hspace] at this

/-- The parts of a declaration, blanks being apart. -/
theorem Fits.hasShape (h : p.Fits name its) (hg : ∀ l ∈ p.lexemes name its, l.Genuine)
    (ha : Apart (p.lexemes name its)) : HasShape .declaration (p.before ++
      .sequence .value p.value (some (spanOf p.value)) :: p.behind) := by
  simp only [lexemes, Front.lexemes, List.append_assoc] at ha
  obtain ⟨before, hbefore⟩ := ha.right.left.eq_toList h.blanks
  obtain ⟨behind, hbehind⟩ : ∃ o : Option Lexeme, p.blank = o.toList := by
    rcases h.blank with ⟨hb, -⟩ | ⟨l, hb, -⟩
    · exact ⟨none, hb⟩
    · exact ⟨some l, hb⟩
  have hspace {l : Lexeme} (ht : l.token = .space) : l.trivia.kind = .space := by
    simp only [trivia, ht]; rfl
  have hmark {l : Lexeme} (hl : l ∈ p.lexemes name its) {t : Token} {c : Char}
      (hp : t.pattern = Pattern.char c) (ht : l.token = t) :
      (l.leaf .punctuation).isLeaf .punctuation (String.singleton c) = true :=
    (l.isLeaf_leaf _ _).2 (((hg l hl).token_eq_iff hp).1 ht)
  refine ⟨⟨p.property, before.map trivia, p.colon.leaf .punctuation, behind.map trivia,
    .sequence .value p.value (some (spanOf p.value)), p.trailing ++ p.flags.map flagOrBlank,
    p.semicolon.map fun l => l.leaf .punctuation⟩, ?_, ?_⟩
  · simp only [DeclarationParts.children, Pieces.before, Pieces.behind, hbefore, hbehind]
    cases before <;> cases behind <;> simp
  refine ⟨(h.property.sound fun l hl => hg l (by simp [lexemes, Front.lexemes, hl])).2,
    ?_, ?_, ?_, rfl, ?_, ?_⟩
  · intro n hn
    obtain ⟨l, hl, rfl⟩ := Option.map_eq_some_iff.1 hn
    exact hspace (h.blanks l (by simp [hbefore, hl]))
  · exact hmark (by simp [lexemes, Front.lexemes]) rfl h.colon
  · intro n hn
    obtain ⟨l, rfl, rfl⟩ := Option.map_eq_some_iff.1 hn
    rcases h.blank with ⟨hb, -⟩ | ⟨m, hb, hm⟩
    · simp [hbehind] at hb
    · obtain rfl : l = m := by simpa [hbehind] using hb
      exact hspace hm
  · intro n hn
    rcases List.mem_append.1 hn with hn | hn
    · exact .inl (by simpa [Node.is] using p.trailing_is_space n hn)
    · obtain ⟨l, hl, rfl⟩ := List.mem_map.1 hn
      rcases h.flags l hl with ht | ht
      · exact .inr (by simp [flagOrBlank, ht])
      · exact .inl (by simp [flagOrBlank, ht, hspace])
  · intro n hn
    obtain ⟨l, hl, rfl⟩ := Option.map_eq_some_iff.1 hn
    exact hmark (by simp [lexemes, hl]) rfl (h.semicolon l hl)

/-- **A declaration** is well formed, and so is all below it. -/
theorem Fits.sound (h : p.Fits name its) (hg : ∀ l ∈ p.lexemes name its, l.Genuine)
    (ha : Apart (p.lexemes name its)) : p.node.Sound := by
  have hits : ∀ l ∈ its, l.Genuine := fun l hl => hg l (by simp [lexemes, hl])
  have hfirst : first its ≠ some .space := by
    rcases h.blank with ⟨-, hf⟩ | ⟨l, hb, hl⟩
    · exact hf
    · intro hf
      simp only [lexemes, Front.lexemes, hb, List.append_assoc, List.cons_append, List.nil_append] at ha
      obtain ⟨m, ms, rfl⟩ := List.exists_cons_of_ne_nil h.items_ne_nil
      exact (List.isChain_cons_cons.1 ha.right.right.tail).1 hl (Option.some.inj hf)
  obtain ⟨span, hnode⟩ := p.node_eq
  rw [hnode]
  refine sound_sequence rfl (h.hasShape hg ha) ?_
  obtain ⟨hfound, -⟩ := h.items.sound hits
  rw [← p.value_append, soundAll_append] at hfound
  obtain ⟨hproperty, -⟩ := h.property.sound fun l hl => hg l (by simp [lexemes, Front.lexemes, hl])
  have hflag (l : Lexeme) : (flagOrBlank l).Sound := by
    unfold flagOrBlank
    split
    · exact sound_leaf rfl
    · exact trivia_sound l
  have hvalue : (Node.sequence .value p.value (some (spanOf p.value))).Sound :=
    sound_sequence rfl (h.isValue hits hfirst) hfound.1
  simp only [before, behind, soundAll_append, soundAll_cons, soundAll_nil, List.cons_append,
    hproperty, soundAll_map trivia_sound, soundAll_map hflag, hvalue, hfound.2, true_and, and_true]
  refine ⟨sound_leaf rfl, ?_⟩
  cases p.semicolon with
  | none => exact soundAll_nil
  | some l => exact soundAll_cons.2 ⟨sound_leaf rfl, soundAll_nil⟩

end Pieces

/-! ### Statements -/

theorem trivia_isStatement (l : Lexeme) : l.trivia.IsStatement := by
  refine .inl ?_
  unfold Lexeme.trivia
  split <;> rfl

/-- The name of an at-rule is not empty. -/
theorem keyword_ne {l : Lexeme} (hl : l.Genuine) (ht : l.token = .atKeyword) :
    (l.inner .atKeyword 1 0).text ≠ "" := by
  rw [Genuine, ht] at hl
  obtain ⟨mark, name, htext, hmark, hname⟩ := Pattern.matches_inOrder_cons.1 hl
  obtain ⟨a, b, rfl, ha, -⟩ := Pattern.matches_inOrder_cons.1 hname
  obtain ⟨c, rfl, -⟩ := Pattern.matches_one_iff.1 ha
  obtain rfl := Pattern.matches_char_iff.1 hmark
  simp [Lexeme.inner, Node.text, Node.text?, htext, ← String.toList_inj]

/-- An at-rule holds a block or a semicolon at its end only. -/
theorem atRule_hasShape {keyword : Lexeme} (hk : keyword.Genuine) (ht : keyword.token = .atKeyword)
    {params ends : List Node} (hparams : ∀ n ∈ params, n.IsItem) (hends : ends.length ≤ 1) :
    HasShape .atRule (keyword.inner .atKeyword 1 0 :: (params ++ ends)) := by
  refine ⟨_, _, rfl, rfl, keyword_ne hk ht, fun n hn => ?_⟩
  have hmem : n ∈ params := by
    rcases ends with _ | ⟨e, _ | ⟨f, ends⟩⟩
    · rw [List.append_nil] at hn
      exact List.dropLast_subset _ hn
    · rwa [List.dropLast_concat] at hn
    · simp at hends
  have hitem := hparams n hmem
  refine ⟨fun hblock => ?_, hitem.noSemicolon⟩
  have := hitem.kind
  rw [hblock] at this
  exact absurd this (by decide)

theorem atRule_node_sound {keyword : Lexeme} (hk : keyword.Genuine)
    (ht : keyword.token = .atKeyword) {ps : List Lexeme} {params : List Node}
    (hps : Items .atRule ps params) (hg : ∀ l ∈ ps, l.Genuine) {ends : List Node}
    (hends : SoundAll ends) (hlast : ends.length ≤ 1) (span : Option Span) :
    (Node.sequence .atRule (keyword.inner .atKeyword 1 0 :: (params ++ ends)) span).Sound := by
  obtain ⟨hall, hitems⟩ := hps.sound hg
  refine sound_sequence rfl (atRule_hasShape hk ht hitems hlast) ?_
  exact soundAll_cons.2 ⟨sound_leaf rfl, soundAll_append.2 ⟨hall, hends⟩⟩

theorem Whole.sound {next : Option Lexeme} {read : List Lexeme} {n : Node} (h : Whole next read n)
    (hg : ∀ l ∈ read, l.Genuine) (ha : Apart read) : n.Sound ∧ n.IsStatement := by
  cases h with
  | trivia _ => exact ⟨trivia_sound _, trivia_isStatement _⟩
  | @semicolon l ht =>
    refine ⟨sound_leaf rfl, .inr (.inl ?_)⟩
    exact (l.isLeaf_leaf _ _).2 (((hg l List.mem_cons_self).token_eq_iff (c := ';') rfl).1 ht)
  | @declaration p _ _ hfit _ =>
    obtain ⟨span, hnode⟩ := p.node_eq
    exact ⟨hfit.sound hg ha, .inr (.inr (.inr (.inl (by rw [hnode]; rfl))))⟩
  | @atRule keyword semicolon ps params ht hps _ =>
    refine ⟨?_, .inr (.inr (.inl rfl))⟩
    exact atRule_node_sound (hg _ List.mem_cons_self) ht hps (fun l hl => hg l (by simp [hl]))
      (soundAll_cons.2 ⟨sound_leaf rfl, soundAll_nil⟩) (Nat.le_refl 1) _
  | @openAtRule keyword ps params ht hps _ =>
    refine ⟨?_, .inr (.inr (.inl rfl))⟩
    have := atRule_node_sound (hg _ List.mem_cons_self) ht hps (fun l hl => hg l (by simp [hl]))
      soundAll_nil (Nat.zero_le 1) (some ⟨keyword.span.start, openStop keyword params next⟩)
    rwa [List.append_nil] at this

/-- A statement with its block is well formed where the block is. -/
theorem Headed.sound {read : List Lexeme} {head : Head} (h : Headed read head)
    (hg : ∀ l ∈ read, l.Genuine) {inside : List Node} (hin : SoundAll inside)
    (hstm : ∀ n ∈ inside, n.IsStatement) (close : Lexeme) :
    (head.withBlock inside close).Sound ∧ (head.withBlock inside close).IsStatement := by
  have hblock (span : Option Span) : (Node.sequence .block inside span).Sound :=
    sound_sequence rfl hstm hin
  cases h with
  | @rule before brace _ _ _ =>
    have hselector : (Head.selectorNode before).Sound ∧ (Head.selectorNode before).kind = .selector := by
      unfold Head.selectorNode
      split <;> exact ⟨sound_leaf rfl, rfl⟩
    refine ⟨sound_sequence rfl ⟨_, _, rfl, hselector.2, rfl⟩ ?_, .inr (.inr (.inr (.inr rfl)))⟩
    exact soundAll_cons.2 ⟨hselector.1, soundAll_cons.2 ⟨hblock _, soundAll_nil⟩⟩
  | @atRule keyword brace ps params ht hps _ =>
    refine ⟨?_, .inr (.inr (.inl rfl))⟩
    exact atRule_node_sound (hg _ List.mem_cons_self) ht hps (fun l hl => hg l (by simp [hl]))
      (soundAll_cons.2 ⟨hblock _, soundAll_nil⟩) (Nat.le_refl 1) _

/-- **Statements** are well formed, and so is all below them. -/
theorem Statements.sound {next : Option Lexeme} {ls : List Lexeme} {ns : List Node}
    (h : Statements next ls ns) (hg : ∀ l ∈ ls, l.Genuine) (ha : Apart ls) :
    SoundAll ns ∧ ∀ n ∈ ns, n.IsStatement := by
  induction h with
  | nil => exact ⟨soundAll_nil, nofun⟩
  | @whole next read ls n ns hw _ ih =>
    obtain ⟨hall, hstm⟩ := ih (fun l hl => hg l (by simp [hl])) ha.right
    obtain ⟨hsound, hn⟩ := hw.sound (fun l hl => hg l (by simp [hl])) ha.left
    exact ⟨soundAll_cons.2 ⟨hsound, hall⟩, List.forall_mem_cons.2 ⟨hn, hstm⟩⟩
  | @block next read ms ls head inside ns close hh _ _ _ ih₁ ih₂ =>
    obtain ⟨hin, hstm⟩ := ih₁ (fun l hl => hg l (by simp [hl])) ha.right.left
    obtain ⟨hall, hmore⟩ := ih₂ (fun l hl => hg l (by simp [hl])) ha.right.right.tail
    obtain ⟨hsound, hn⟩ := hh.sound (fun l hl => hg l (by simp [hl])) hin hstm close
    exact ⟨soundAll_cons.2 ⟨hsound, hall⟩, List.forall_mem_cons.2 ⟨hn, hmore⟩⟩

end Parse

/-! ### What readers look for -/

namespace Node

/-- What the readers of a node look for is there. -/
structure Complete (n : Node) : Prop where
  /-- The text of a name or a literal. -/
  text : n.kind.carriesText = true → ∃ t, n.text? = some t
  /-- The name of an at-rule. -/
  keyword : n.is .atRule = true → ∃ t, n.children.head?.bind Node.text? = some t
  /-- The block of a rule. -/
  block : n.is .rule = true → ∃ b, n.firstChild? .block = some b
  /-- The left side of a declaration, with the name of its variable if there is one. -/
  property : n.is .declaration = true → ∃ p, n.firstChild? .property = some p ∧
    ∀ v, p.firstChild? .variable = some v → ∃ t, v.text? = some t
  value : n.is .declaration = true → ∃ v, n.firstChild? .value = some v
  /-- The name of a function and its arguments. -/
  call : n.is .function = true → (∃ t, n.children.head?.bind Node.text? = some t) ∧
    ∃ a, n.children[1]? = some a

theorem WellFormed.text?_eq {n : Node} (h : n.WellFormed) (hk : n.kind.carriesText = true) :
    ∃ t, n.text? = some t := Option.isSome_iff_exists.1 (h.text.trans hk)

mutual

/-- A node below a node has no more below it. -/
theorem nodes_subset : {n m : Node} → m ∈ n.nodes → m.nodes ⊆ n.nodes
  | leaf _ _ _, m, h => by
    obtain rfl := List.mem_singleton.1 h
    exact List.Subset.refl _
  | single _ c _, m, h => by
    rcases List.mem_cons.1 h with rfl | h
    · exact List.Subset.refl _
    · exact List.subset_cons_of_subset _ (nodes_subset h)
  | sequence _ cs _, m, h => by
    rcases List.mem_cons.1 h with rfl | h
    · exact List.Subset.refl _
    · exact List.subset_cons_of_subset _ (nodesAll_subset h)

theorem nodesAll_subset : {ns : List Node} → {m : Node} → m ∈ nodesAll ns →
    m.nodes ⊆ nodesAll ns
  | n :: ns, m, h => by
    rcases List.mem_append.1 h with h | h
    · exact List.subset_append_of_subset_left _ (nodes_subset h)
    · exact List.subset_append_of_subset_right _ (nodesAll_subset h)

end

theorem nodes_eq (n : Node) : n.nodes = n :: nodesAll n.children := by
  cases n <;> simp [nodes, nodesAll, children]

theorem Sound.below {n m : Node} (h : n.Sound) (hm : m ∈ n.nodes) : m.Sound :=
  fun k hk => h k (nodes_subset hm hk)

theorem Sound.wellFormed {n : Node} (h : n.Sound) : n.WellFormed := h n (by simp [nodes_eq])

theorem mem_nodesAll {n : Node} {ns : List Node} (h : n ∈ ns) : n ∈ nodesAll ns := by
  induction ns with
  | nil => cases h
  | cons m ns ih =>
    rcases List.mem_cons.1 h with rfl | h
    · exact List.mem_append_left _ (by simp [nodes_eq])
    · exact List.mem_append_right _ (ih h)

theorem Sound.child {n m : Node} (h : n.Sound) (hm : m ∈ n.children) : m.Sound :=
  h.below (by rw [nodes_eq]; exact List.mem_cons_of_mem _ (mem_nodesAll hm))

/-- A name among the children of a node has text. -/
theorem Sound.text {n m : Node} (h : n.Sound) (hm : m ∈ n.children)
    (hk : m.kind.carriesText = true) : ∃ t, m.text? = some t :=
  (h.child hm).wellFormed.text?_eq hk

theorem firstChild?_of_mem {n m : Node} (hm : m ∈ n.children) :
    ∃ c, n.firstChild? m.kind = some c :=
  Option.isSome_iff_exists.1 (List.find?_isSome.2 ⟨m, hm, by simp [Node.is]⟩)

theorem of_firstChild? {n m : Node} {k : Kind} (h : n.firstChild? k = some m) :
    m ∈ n.children ∧ m.kind = k :=
  ⟨List.mem_of_find?_eq_some h, by simpa [Node.is] using List.find?_some h⟩

/-- **Nothing is missing** in what is well formed. -/
theorem Sound.complete {n : Node} (h : n.Sound) : n.Complete := by
  have hshape {k : Kind} (hk : n.is k = true) : HasShape k n.children := by
    have hk : n.kind = k := by simpa [Node.is] using hk
    exact hk ▸ h.wellFormed.shape
  refine ⟨h.wellFormed.text?_eq, fun hk => ?_, fun hk => ?_, fun hk => ?_, fun hk => ?_, fun hk => ?_⟩
  · obtain ⟨keyword, rest, hcs, hkind, -, -⟩ := hshape hk
    obtain ⟨t, ht⟩ := h.text (m := keyword) (by simp [hcs]) (by rw [hkind]; rfl)
    exact ⟨t, by simp [hcs, ht]⟩
  · obtain ⟨selector, block, hcs, -, hkind⟩ := hshape hk
    exact hkind ▸ firstChild?_of_mem (m := block) (by simp [hcs])
  · obtain ⟨d, hcs, hfit⟩ := hshape hk
    obtain ⟨p, hp⟩ := hfit.property ▸ firstChild?_of_mem (n := n) (m := d.property)
      (by simp [hcs, DeclarationParts.children])
    refine ⟨p, hp, fun v hv => ?_⟩
    obtain ⟨hmem, hkind⟩ := of_firstChild? hv
    exact (h.child (of_firstChild? hp).1).text hmem (by rw [hkind]; rfl)
  · obtain ⟨d, hcs, hfit⟩ := hshape hk
    exact hfit.value ▸ firstChild?_of_mem (n := n) (m := d.value)
      (by simp [hcs, DeclarationParts.children])
  · obtain ⟨name, arguments, hcs, hname, -⟩ := hshape hk
    obtain ⟨t, ht⟩ := h.text (m := name) (by simp [hcs]) (by rw [hname]; rfl)
    exact ⟨⟨t, by simp [hcs, ht]⟩, arguments, by simp [hcs]⟩

end Node

namespace Export

/-- A declaration whose variable has a name can be wrapped. -/
theorem wrapNode_ok {n : Node} (h : n.Sound) (function : String) :
    ∃ o, wrapNode function n = .ok o := by
  unfold wrapNode
  split
  · rename_i hk
    obtain ⟨p, hp, hname⟩ := h.complete.property hk
    unfold wrapDeclaration declared?
    rw [hp, Option.bind_some]
    cases hv : p.firstChild? .variable with
    | none => exact ⟨_, rfl⟩
    | some v =>
      obtain ⟨t, ht⟩ := hname v hv
      simp only [ht]
      split
      · split <;> exact ⟨_, rfl⟩
      · exact ⟨_, rfl⟩
  · exact ⟨_, rfl⟩

theorem wrapAll_ok {ns : List Node} (h : ∀ n ∈ ns, n.Sound) (function : String) :
    ∃ count, (wrapAll function ns).2 = .ok count := by
  induction ns with
  | nil => exact ⟨0, rfl⟩
  | cons n ns ih =>
    obtain ⟨o, ho⟩ := wrapNode_ok (h n List.mem_cons_self) function
    obtain ⟨count, hcount⟩ := ih fun m hm => h m (List.mem_cons_of_mem _ hm)
    exact ⟨_, by simp only [wrapAll, ho, hcount]; rfl⟩

end Export

/-- All nodes of the tree of a source are well formed. -/
theorem sound_of_parse {source : String} {tree : Node} (h : parse source = .ok tree) :
    tree.Sound := by
  obtain ⟨ls, ns, hls, hstm, rfl⟩ := parse_iff.1 h
  obtain ⟨hall, hstatements⟩ := hstm.sound (genuine_of_tokenize hls).1 (apart_of_tokenize hls)
  exact sound_sequence rfl hstatements hall

/-- **The trees of sources are well formed.** Every node has the shape of its kind, no reader of a
node misses what it looks for, and no declaration has a variable without a name. -/
theorem wellFormed_of_parse {source : String} {tree : Node} (h : parse source = .ok tree) :
    (∀ n ∈ tree.nodes, n.WellFormed ∧ n.Complete) ∧
      ∀ function : String, (Export.wrapDeclarations function tree).result ≠ .error .unnamedVariable := by
  have hsound := sound_of_parse h
  refine ⟨fun n hn => ⟨hsound n hn, (hsound.below hn).complete⟩, fun function => ?_⟩
  obtain ⟨ls, ns, -, -, rfl⟩ := parse_iff.1 h
  obtain ⟨count, hcount⟩ := Export.wrapAll_ok (fun n (hn : n ∈ ns) => hsound.child hn) function
  unfold Export.wrapDeclarations
  split
  · simp [hcount]
  · simp

/-- A rule with a property of several parts, and at-rules with and without a block. -/
theorem wellFormed_of_parse_sample : ∃ tree,
    parse "@if $a \x7b $b : f(1, #\x7b$c\x7d) !default; \x7d\n.x \x7b--y:1\x7d @use 'u'" = .ok tree ∧
      (∀ n ∈ tree.nodes, n.WellFormed ∧ n.Complete) ∧
      ∀ function : String,
        (Export.wrapDeclarations function tree).result ≠ .error .unnamedVariable := by
  have h : (parse "@if $a \x7b $b : f(1, #\x7b$c\x7d) !default; \x7d\n.x \x7b--y:1\x7d @use 'u'").isOk =
      true := by decide +kernel
  cases hp : parse "@if $a \x7b $b : f(1, #\x7b$c\x7d) !default; \x7d\n.x \x7b--y:1\x7d @use 'u'" with
  | error e => rw [hp] at h; cases h
  | ok tree => exact ⟨tree, rfl, wellFormed_of_parse hp⟩

end Stylesheet
