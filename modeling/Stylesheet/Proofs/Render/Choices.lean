import Mathlib.Data.List.Induction
import Stylesheet.Proofs.Export.Declarations
import Stylesheet.Proofs.Render.Agreement

/-!
# Chains choose one branch

A chain among the nodes of a stylesheet is an `@if`, the links behind it that have a condition, and
at most one `@else` without one. Blanks, comments and semicolons between the links are passed over.
A link behind the first has a condition exactly if the word `if` stands behind nothing but blanks
and no parenthesis stands right behind it: a comment before the word hides it, and a parenthesis
makes it the name of a call.

* `OpenChain`: the nodes of a chain to which a link may be added.
* `chosen`: the block of the link whose condition holds first.
* `asksIf_iff`: the links that have a condition, by their lexemes.
* `Walk.chooses`: both walks decide a chain alike, and fail at an `@else` behind no open chain.
-/

namespace Stylesheet

open Node Parse Render

/-! ### The pieces of a chain -/

/-- Whether a piece is no link behind another. -/
def Piece.starts : Piece → Bool
  | stmt _ | ifLink _ _ => true
  | elseIfLink _ _ | elseLink _ => false

namespace Stmt

/-- The links that are open behind a piece. -/
def behind (links : Links) : Piece → Links
  | .stmt _ => []
  | .ifLink c body => [(c, body)]
  | .elseIfLink c body => if links.isEmpty then [] else (c, body) :: links
  | .elseLink _ => []

/-- What is put together up to a point does not depend on what follows, but for the links that are
open there. -/
theorem assemble_foldl (ps : List Piece) (links : Links) :
    ∃ done, ∀ qs, assemble links (ps ++ qs) = done ++ assemble (ps.foldl behind links) qs := by
  induction ps generalizing links with
  | nil => exact ⟨[], fun _ => rfl⟩
  | cons p ps ih =>
    obtain ⟨done, hdone⟩ := ih (behind links p)
    cases p with
    | stmt s =>
      refine ⟨ofLinks links ++ s :: done, fun qs => ?_⟩
      rw [List.append_assoc]
      exact congrArg (ofLinks links ++ s :: ·) (hdone qs)
    | ifLink c body =>
      refine ⟨ofLinks links ++ done, fun qs => ?_⟩
      rw [List.append_assoc]
      exact congrArg (ofLinks links ++ ·) (hdone qs)
    | elseIfLink c body =>
      cases links with
      | nil => exact ⟨.strayElse :: done, fun qs => congrArg (strayElse :: ·) (hdone qs)⟩
      | cons l links => exact ⟨done, hdone⟩
    | elseLink body =>
      refine ⟨(if links.isEmpty then strayElse else choose links.reverse body) :: done, fun qs => ?_⟩
      exact congrArg (_ :: ·) (hdone qs)

/-- A piece that is no link behind another closes the chain before it. -/
theorem assemble_starts {qs : List Piece} (h : ∀ q ∈ qs.head?, q.starts = true) (links : Links) :
    assemble links qs = ofLinks links ++ assemble [] qs := by
  rcases qs with _ | ⟨_ | _ | _ | _, qs⟩
  · exact (List.append_nil _).symm
  · rfl
  · rfl
  · cases h _ rfl
  · cases h _ rfl

/-- **Pieces may be cut** where no chain goes on. -/
theorem assemble_cut {ps qs : List Piece} {links : Links}
    (h : ps.foldl behind links = [] ∨ ∀ q ∈ qs.head?, q.starts = true) :
    assemble links (ps ++ qs) = assemble links ps ++ assemble [] qs := by
  obtain ⟨done, hdone⟩ := assemble_foldl ps links
  have hps := hdone []
  rw [List.append_nil] at hps
  rcases h with h | h
  · rw [hdone, hps, h]
    simp [assemble, ofLinks]
  · rw [hdone, hps, assemble_starts h, ← List.append_assoc]
    rfl

end Stmt

/-! ### The nodes of a chain -/

/-- A node that is no statement: a blank, a comment or a semicolon. -/
def Idle (n : Node) : Prop := Stmt.piece? n = none

/-- An at-rule of the keyword, with its children. -/
def IsRule (keyword : String) (cs : List Node) (n : Node) : Prop :=
  ∃ s, n = .sequence .atRule cs s ∧ (cs.head?.map Node.text).getD "" = keyword

/-- Parameters that are a condition behind the word `if`. -/
def AsksIf (params condition : List Node) : Prop :=
  ∃ blanks word, params = blanks ++ word :: condition ∧ (∀ b ∈ blanks, b.is .space = true) ∧
    word.isLeaf .identifier "if" = true

/-- A link of a chain: the nodes of its condition, and the children of the rule. -/
structure Branch where
  condition : List Node
  children : List Node

/-- The link as it is put together with others. -/
def Branch.link (b : Branch) : Expr × List Stmt := (.ofNodes b.condition, Stmt.block b.children)

/-- **The nodes of a chain to which a link may be added**, with its links. -/
inductive OpenChain : List Node → List Branch → Prop
  | first {n : Node} {cs : List Node} :
      IsRule "if" cs n → OpenChain [n] [⟨Rule.parameters cs, cs⟩]
  | idle {ns : List Node} {bs : List Branch} {n : Node} :
      OpenChain ns bs → Idle n → OpenChain (ns ++ [n]) bs
  | next {ns : List Node} {bs : List Branch} {n : Node} {cs condition : List Node} :
      OpenChain ns bs → IsRule "else" cs n → AsksIf (Rule.parameters cs) condition →
        OpenChain (ns ++ [n]) (bs ++ [⟨condition, cs⟩])

/-- A chain is open behind the nodes. -/
def EndsOpen (before : List Node) : Prop :=
  ∃ front ns bs, before = front ++ ns ∧ OpenChain ns bs

/-- The first statement of the nodes is an `@else`. -/
def StartsElse (after : List Node) : Prop :=
  ∃ idle e rest cs, after = idle ++ e :: rest ∧ (∀ n ∈ idle, Idle n) ∧ IsRule "else" cs e

/-- **The nodes of a whole chain** before some others: its links, and the children of the `@else`
without a condition if it has one. -/
inductive WholeChain (after : List Node) : List Node → List Branch → Option (List Node) → Prop
  | withoutElse {ns : List Node} {bs : List Branch} :
      OpenChain ns bs → ¬ StartsElse after → WholeChain after ns bs none
  | withElse {ns : List Node} {bs : List Branch} {e : Node} {cs : List Node} :
      OpenChain ns bs → IsRule "else" cs e → (∀ condition, ¬ AsksIf (Rule.parameters cs) condition) →
        WholeChain after (ns ++ [e]) bs (some cs)

theorem elseIf?_of_asksIf {params condition : List Node} (h : AsksIf params condition) :
    Stmt.elseIf? params = some (.ofNodes condition) := by
  obtain ⟨blanks, word, rfl, hblanks, hword⟩ := h
  have hspace : word.is .space = false := by
    have : word.kind = .identifier := by
      simp only [isLeaf, Bool.and_eq_true] at hword
      simpa [Node.is] using hword.1
    simp [Node.is, this]
  rw [Stmt.elseIf?, List.dropWhile_append_of_pos hblanks, List.dropWhile_cons_of_neg (by simp [hspace])]
  exact if_pos hword

theorem elseIf?_eq_none {params : List Node} (h : ∀ condition, ¬ AsksIf params condition) :
    Stmt.elseIf? params = none := by
  unfold Stmt.elseIf?
  split
  · next n rest hrest =>
    refine if_neg fun hn => h rest ⟨params.takeWhile (·.is .space), n, ?_, ?_, hn⟩
    · rw [← hrest, List.takeWhile_append_dropWhile]
    · exact fun b hb => List.all_eq_true.1 List.all_takeWhile b hb
  · rfl

theorem IsRule.pieces {keyword : String} {cs : List Node} {n : Node} (h : IsRule keyword cs n)
    (ns : List Node) : Stmt.pieces (n :: ns) =
      Stmt.ofAtRule keyword (Rule.parameters cs) (Stmt.block cs) :: Stmt.pieces ns := by
  obtain ⟨s, rfl, rfl⟩ := h
  rfl

theorem Idle.pieces {n : Node} (h : Idle n) (ns : List Node) :
    Stmt.pieces (n :: ns) = Stmt.pieces ns := by
  rw [Stmt.pieces, h]
  rfl

theorem ofAtRule_stmt {keyword : String} (hif : keyword ≠ "if") (helse : keyword ≠ "else")
    (params : List Node) (body : List Stmt) :
    ∃ st, Stmt.ofAtRule keyword params body = .stmt st := by
  unfold Stmt.ofAtRule
  split
  · exact absurd rfl hif
  · exact absurd rfl helse
  all_goals exact ⟨_, rfl⟩

/-- A node is idle, a statement by itself, or a link of a chain. -/
theorem node_cases (n : Node) : Idle n ∨ (∃ st, Stmt.piece? n = some (.stmt st)) ∨
    (∃ cs, IsRule "if" cs n) ∨ ∃ cs, IsRule "else" cs n := by
  cases n with
  | leaf _ _ _ | single _ _ _ => exact .inl rfl
  | sequence k cs s =>
    cases k with
    | declaration | rule => exact .inr (.inl ⟨_, rfl⟩)
    | atRule =>
      by_cases hif : (cs.head?.map Node.text).getD "" = "if"
      · exact .inr (.inr (.inl ⟨cs, s, rfl, hif⟩))
      by_cases helse : (cs.head?.map Node.text).getD "" = "else"
      · exact .inr (.inr (.inr ⟨cs, s, rfl, helse⟩))
      obtain ⟨st, hst⟩ := ofAtRule_stmt hif helse (Rule.parameters cs) (Stmt.block cs)
      exact .inr (.inl ⟨st, congrArg some hst⟩)
    | _ => exact .inl rfl

/-- What is not an `@else` starts anew. -/
theorem pieces_starts {after : List Node} (h : ¬ StartsElse after) :
    ∀ q ∈ (Stmt.pieces after).head?, q.starts = true := by
  induction after with
  | nil => nofun
  | cons n ns ih =>
    rcases node_cases n with hn | ⟨st, hn⟩ | ⟨cs, hn⟩ | ⟨cs, hn⟩
    · rw [hn.pieces]
      refine ih fun ⟨idle, e, rest, cs, hns, hidle, he⟩ => h ⟨n :: idle, e, rest, cs, ?_, ?_, he⟩
      · rw [hns, List.cons_append]
      · exact List.forall_mem_cons.2 ⟨hn, hidle⟩
    · rw [Stmt.pieces, hn]
      rintro q ⟨⟩
      rfl
    · rw [hn.pieces]
      rintro q ⟨⟩
      rfl
    · exact absurd ⟨[], n, ns, cs, rfl, nofun, hn⟩ h

theorem OpenChain.ne_nil {ns : List Node} {bs : List Branch} (h : OpenChain ns bs) : bs ≠ [] := by
  induction h with
  | first _ => exact List.cons_ne_nil _ _
  | idle _ _ ih => exact ih
  | next _ _ _ _ => simp

/-- **The links of an open chain** are put together. -/
theorem OpenChain.assemble {ns : List Node} {bs : List Branch} (h : OpenChain ns bs)
    (links : Stmt.Links) (ps : List Piece) :
    Stmt.assemble links (Stmt.pieces ns ++ ps) =
      Stmt.ofLinks links ++ Stmt.assemble (bs.map Branch.link).reverse ps := by
  induction h generalizing ps with
  | first hn =>
    rw [hn.pieces]
    rfl
  | idle _ hn ih =>
    rw [Stmt.pieces_append, hn.pieces, List.append_assoc]
    exact ih ps
  | @next ns bs n cs condition hns hn hasks ih =>
    have hpiece : Stmt.ofAtRule "else" (Rule.parameters cs) (Stmt.block cs) =
        .elseIfLink (.ofNodes condition) (Stmt.block cs) := by
      rw [Stmt.ofAtRule, elseIf?_of_asksIf hasks]
    obtain ⟨l, ls, hls⟩ := List.exists_cons_of_ne_nil
      (show (bs.map Branch.link).reverse ≠ [] by simp [hns.ne_nil])
    rw [Stmt.pieces_append, hn.pieces, hpiece, List.append_assoc, ih, List.map_append,
      List.reverse_append, hls]
    rfl

/-- A chain is open behind the nodes if links are open behind their pieces. -/
theorem endsOpen_of_foldl {before : List Node}
    (h : (Stmt.pieces before).foldl Stmt.behind [] ≠ []) : EndsOpen before := by
  induction before using List.reverseRecOn with
  | nil => exact absurd rfl h
  | append_singleton ns n ih =>
    rw [Stmt.pieces_append, List.foldl_append] at h
    rcases node_cases n with hn | ⟨st, hn⟩ | ⟨cs, hn⟩ | ⟨cs, hn⟩
    · rw [hn.pieces] at h
      obtain ⟨front, ns, bs, rfl, hopen⟩ := ih h
      exact ⟨front, ns ++ [n], bs, List.append_assoc _ _ _, .idle hopen hn⟩
    · rw [Stmt.pieces, hn] at h
      exact absurd rfl h
    · exact ⟨ns, [n], _, rfl, .first hn⟩
    · rw [hn.pieces] at h
      by_cases hasks : ∃ condition, AsksIf (Rule.parameters cs) condition
      · obtain ⟨condition, hasks⟩ := hasks
        have hne : (Stmt.pieces ns).foldl Stmt.behind [] ≠ [] := by
          intro hnil
          rw [hnil, Stmt.ofAtRule, elseIf?_of_asksIf hasks] at h
          exact h rfl
        obtain ⟨front, ns, bs, rfl, hopen⟩ := ih hne
        exact ⟨front, ns ++ [n], _, List.append_assoc _ _ _, .next hopen hn hasks⟩
      · rw [Stmt.ofAtRule, elseIf?_eq_none (not_exists.1 hasks)] at h
        exact absurd rfl h

/-! ### The statements of a chain -/

theorem OpenChain.pieces_eq {ns : List Node} {bs : List Branch} (h : OpenChain ns bs) :
    ∃ p ps, Stmt.pieces ns = p :: ps ∧ p.starts = true := by
  induction h with
  | first hn => exact ⟨_, _, hn.pieces [], rfl⟩
  | idle _ _ ih | next _ _ _ ih =>
    obtain ⟨p, ps, hps, hp⟩ := ih
    exact ⟨p, _, by rw [Stmt.pieces_append, hps, List.cons_append], hp⟩

/-- An open chain is cut off from what stands before it. -/
theorem OpenChain.cut {ns : List Node} {bs : List Branch} (h : OpenChain ns bs)
    (before : List Node) (ps : List Piece) :
    Stmt.assemble [] (Stmt.pieces before ++ (Stmt.pieces ns ++ ps)) =
      Stmt.ofNodes before ++ Stmt.assemble (bs.map Branch.link).reverse ps := by
  obtain ⟨q, qs, hqs, hq⟩ := h.pieces_eq
  rw [Stmt.assemble_cut (.inr (by rintro _ h'; rw [hqs] at h'; cases h'; exact hq)), h.assemble]
  rfl

/-- **A whole chain** is one statement between those before it and those behind it. -/
theorem ofNodes_chain {after ns : List Node} {bs : List Branch} {otherwise : Option (List Node)}
    (h : WholeChain after ns bs otherwise) (before : List Node) :
    Stmt.ofNodes (before ++ (ns ++ after)) = Stmt.ofNodes before ++
      .choose (bs.map Branch.link) (otherwise.elim [] Stmt.block) :: Stmt.ofNodes after := by
  rw [Stmt.ofNodes, Stmt.pieces_append, Stmt.pieces_append]
  cases h with
  | withoutElse hopen hafter =>
    rw [hopen.cut, Stmt.assemble_starts (pieces_starts hafter)]
    simp [Stmt.ofLinks, Stmt.ofNodes, hopen.ne_nil]
  | @withElse ns _ e cs hopen he hplain =>
    have hpiece : Stmt.ofAtRule "else" (Rule.parameters cs) (Stmt.block cs) =
        .elseLink (Stmt.block cs) := by
      rw [Stmt.ofAtRule, elseIf?_eq_none hplain]
    rw [Stmt.pieces_append, he.pieces, hpiece, List.append_assoc, hopen.cut, List.cons_append, Stmt.assemble]
    simp [Stmt.ofNodes, Stmt.pieces, hopen.ne_nil]

/-- **An `@else` behind no open chain** is a stray one. -/
theorem ofNodes_stray {before cs : List Node} {e : Node} (he : IsRule "else" cs e)
    (h : ¬ EndsOpen before) (after : List Node) :
    Stmt.ofNodes (before ++ e :: after) =
      Stmt.ofNodes before ++ .strayElse :: Stmt.ofNodes after := by
  have hnil : (Stmt.pieces before).foldl Stmt.behind [] = [] := by
    by_contra hne
    exact h (endsOpen_of_foldl hne)
  rw [Stmt.ofNodes, Stmt.pieces_append, Stmt.assemble_cut (.inl hnil), he.pieces, Stmt.ofAtRule]
  refine congrArg (Stmt.ofNodes before ++ ·) ?_
  cases Stmt.elseIf? (Rule.parameters cs) <;> rfl

/-! ### Links by their lexemes -/

/-- The word `if` behind nothing but blanks, and no parenthesis right behind it. -/
def SaysIf (ps : List Lexeme) : Prop :=
  ∃ blanks word rest, ps = blanks ++ word :: rest ∧ (∀ l ∈ blanks, l.token = .space) ∧
    word.token = .ident ∧ word.text = "if" ∧ Lexeme.first rest ≠ some .openParen

theorem asksIf_cons {n : Node} {ns : List Node} : (∃ condition, AsksIf (n :: ns) condition) ↔
    n.isLeaf .identifier "if" = true ∨ n.is .space = true ∧ ∃ condition, AsksIf ns condition := by
  constructor
  · rintro ⟨condition, _ | ⟨b, blanks⟩, word, hns, hblanks, hword⟩
    · obtain ⟨rfl, rfl⟩ := List.cons.inj hns
      exact .inl hword
    · obtain ⟨rfl, rfl⟩ := List.cons.inj hns
      obtain ⟨hb, hblanks⟩ := List.forall_mem_cons.1 hblanks
      exact .inr ⟨hb, condition, blanks, word, rfl, hblanks, hword⟩
  · rintro (hword | ⟨hn, condition, blanks, word, rfl, hblanks, hword⟩)
    · exact ⟨ns, [], n, rfl, nofun, hword⟩
    · exact ⟨condition, n :: blanks, word, rfl, List.forall_mem_cons.2 ⟨hn, hblanks⟩, hword⟩

theorem saysIf_cons {l : Lexeme} {ls : List Lexeme} : SaysIf (l :: ls) ↔
    (l.token = .ident ∧ l.text = "if" ∧ Lexeme.first ls ≠ some .openParen) ∨
      l.token = .space ∧ SaysIf ls := by
  constructor
  · rintro ⟨_ | ⟨b, blanks⟩, word, rest, hls, hblanks, hword⟩
    · obtain ⟨rfl, rfl⟩ := List.cons.inj hls
      exact .inl hword
    · obtain ⟨rfl, rfl⟩ := List.cons.inj hls
      obtain ⟨hb, hblanks⟩ := List.forall_mem_cons.1 hblanks
      exact .inr ⟨hb, blanks, word, rest, rfl, hblanks, hword⟩
  · rintro (hword | ⟨hl, blanks, word, rest, rfl, hblanks, hword⟩)
    · exact ⟨[], l, ls, rfl, nofun, hword⟩
    · exact ⟨l :: blanks, word, rest, rfl, List.forall_mem_cons.2 ⟨hl, hblanks⟩, hword⟩

/-- **The links that have a condition**, by the lexemes of their parameters. -/
theorem asksIf_iff {stop : Stop} {ps : List Lexeme} {params : List Node} (h : Items stop ps params) :
    (∃ condition, AsksIf params condition) ↔ SaysIf ps := by
  induction h with
  | nil =>
    constructor
    · rintro ⟨_, blanks, _, hnil, -⟩
      cases blanks <;> cases hnil
    · rintro ⟨blanks, _, _, hnil, -⟩
      cases blanks <;> cases hnil
  | @leaf stop l n ls ns _ hn hp _ ih =>
    rw [asksIf_cons, saysIf_cons, ih]
    obtain ⟨t, text, span⟩ := l
    cases t <;> simp only [Lexeme.item?, Lexeme.trivia, reduceCtorEq, Option.some.injEq] at hn <;>
      subst hn
    case ident =>
      have hp : Lexeme.first ls ≠ some .openParen := hp rfl
      simp [isLeaf, Lexeme.leaf, Node.is, Node.kind, Node.text?, hp]
    all_goals simp [isLeaf, Lexeme.leaf, Lexeme.inner, Node.is, Node.kind]
  | @bracket stop o ms ls inside ns close hfit _ _ _ _ _ =>
    rw [asksIf_cons]
    cases o with
    | parentheses m | interpolation m =>
      have hm : m.token = _ := hfit
      simp [Opening.marks, Opening.node, saysIf_cons, hm, isLeaf, Node.is, Node.kind]
    | call n m =>
      obtain ⟨hn, hm⟩ : n.token = _ ∧ m.token = _ := hfit
      simp [Opening.marks, Opening.node, saysIf_cons, hn, hm, isLeaf, Node.is, Node.kind]

/-- The parameters of an at-rule with a block are what stands before the block. -/
theorem parameters_block (keyword block : Node) (params : List Node) (h : block.is .block = true) :
    Rule.parameters (keyword :: (params ++ [block])) = params := by
  simp [Rule.parameters, h]

/-- The condition of a link that is read from a source. -/
theorem Parse.Headed.asksIf_iff {read : List Lexeme} {keyword brace : Lexeme} {params : List Node}
    (h : Headed read (.atRule keyword params brace)) (inside : List Node) (close : Lexeme) :
    ∃ ps, read = keyword :: (ps ++ [brace]) ∧
      ((∃ condition, AsksIf (Rule.parameters
        ((Head.atRule keyword params brace).withBlock inside close).children) condition) ↔
        SaysIf ps) := by
  cases h with
  | @atRule _ _ ps _ _ hps _ =>
    refine ⟨ps, rfl, ?_⟩
    have hparams := parameters_block (keyword.inner .atKeyword 1 0)
      (.sequence .block inside (some ⟨brace.span.start, close.span.stop⟩)) params rfl
    rw [Head.withBlock, Node.children, List.cons_append, hparams]
    exact Stylesheet.asksIf_iff hps

/-! ### Deciding a chain -/

section

variable {σ : Type} (host : Host σ) (caller : Caller σ)

/-- The block of the link whose condition holds first, by the children of its rule. The conditions
are evaluated in order, and none behind the first that holds. -/
def chosen : List Branch → Render σ (Option (List Node))
  | [] => return none
  | b :: bs => do
      if (← (Expr.ofNodes b.condition).eval host caller).isTruthy then return some b.children
      else chosen bs

/-- Run the block that is chosen, or else the one behind the last `@else`, if there is one. -/
def decideChain {α : Type} (run : List Node → Render σ α) (nothing : α) (bs : List Branch)
    (otherwise : Option (List Node)) : Render σ α := do
  match (← chosen host caller bs).or otherwise with
  | some cs => run cs
  | none => return nothing

/-- Blocks that give nothing may be run for their effect. -/
theorem decideChain_void (run : List Node → Render σ (Option Value)) (bs : List Branch)
    (otherwise : Option (List Node)) :
    decideChain host caller (fun cs => do let _ ← run cs) () bs otherwise =
      (do let _ ← decideChain host caller run none bs otherwise) := by
  unfold decideChain
  rw [bind_assoc]
  refine bind_congr fun c => ?_
  cases c.or otherwise <;> rfl

end

section

variable {σ : Type} [Log.Sink σ] (host : Host σ) (limits : Limits) (caller : Caller σ)

theorem execLinks_chosen (place : Place σ) (bs : List Branch) (otherwise : Option (List Node)) :
    Stmt.execLinks host limits caller place
        (Stmt.execAll host limits caller place (otherwise.elim [] Stmt.block))
        (bs.map Branch.link) =
      decideChain host caller (fun cs => Stmt.execAll host limits caller place (Stmt.block cs)) none
        bs otherwise := by
  induction bs with
  | nil =>
    rw [List.map_nil, Stmt.execLinks, decideChain, chosen, pure_bind]
    cases otherwise <;> rfl
  | cons b bs ih =>
    simp only [List.map_cons, Stmt.execLinks, Branch.link, decideChain, chosen, bind_assoc] at ih ⊢
    refine bind_congr fun v => ?_
    split
    · rw [pure_bind]
      rfl
    · exact ih

theorem execAll_append (place : Place σ) (ss ss' : List Stmt) :
    Stmt.execAll host limits caller place (ss ++ ss') = (do
      match ← Stmt.execAll host limits caller place ss with
      | some v => return some v
      | none => Stmt.execAll host limits caller place ss') := by
  have h := Noted.execAll_append .none host limits caller place ss ss'
  rwa [Noted.execAll_none, Noted.execAll_none, Noted.execAll_none] at h

namespace Walk

variable (loader : Loader σ) (within : Within)

theorem execNodes_ofNodes (ns : List Node) :
    execNodes host limits caller within none ns =
      Stmt.execAll host limits caller within.place (Stmt.ofNodes ns) := by
  rw [execNodes_eq, Stmt.ofNodes, Piece.execAll_eq]

theorem evalNodes_ofNodes (ns : List Node) :
    evalNodes host limits caller loader none ns =
      (do let _ ← Stmt.execAll host limits caller (.top loader) (Stmt.ofNodes ns)) := by
  rw [evalNodes_eq, Stmt.ofNodes, Piece.execAll_eq]

/-- The walk that may return goes on behind statements that do not. -/
theorem execNodes_append {before rest : List Node} {st : Stmt} {after : List Stmt}
    (h : Stmt.ofNodes (before ++ rest) = Stmt.ofNodes before ++ st :: after) :
    execNodes host limits caller within none (before ++ rest) = (do
      match ← execNodes host limits caller within none before with
      | some v => return some v
      | none =>
          match ← st.exec host limits caller within.place with
          | some v => return some v
          | none => Stmt.execAll host limits caller within.place after) := by
  rw [execNodes_ofNodes, h, execAll_append, execNodes_ofNodes]
  rfl

/-- The walk that may load files goes on behind statements, since none of them returns. -/
theorem evalNodes_append {before rest : List Node} {st : Stmt} {after : List Stmt}
    (h : Stmt.ofNodes (before ++ rest) = Stmt.ofNodes before ++ st :: after) :
    evalNodes host limits caller loader none (before ++ rest) = (do
      evalNodes host limits caller loader none before
      let _ ← st.exec host limits caller (.top loader)
      let _ ← Stmt.execAll host limits caller (.top loader) after) := by
  simp only [evalNodes_ofNodes, h, execAll_append, bind_assoc]
  refine bind_congr_ok fun s r s' hr => ?_
  obtain rfl : r = none := (Stmt.execAll_returns host limits caller rfl _ s r s' hr).1
  simp only [Stmt.execAll, bind_assoc, pure_bind]
  refine bind_congr_ok fun s r s' hr => ?_
  obtain rfl : r = none := (Stmt.exec_returns host limits caller rfl _ s r s' hr).1
  rfl

/-- **Chains choose one branch.** Wherever a chain stands among other nodes, both walks evaluate its
conditions in order, up to the first that holds, and run the block of that link alone; if none holds,
they run the block of the `@else` without a condition, if there is one. They fail at an `@else`
behind no open chain, before they look at anything of it. A link has a condition exactly if it says
`if` behind nothing but blanks, and no parenthesis right behind it. -/
theorem chooses :
    (∀ before ns after bs otherwise, WholeChain after ns bs otherwise →
      evalNodes host limits caller loader none (before ++ (ns ++ after)) = (do
        evalNodes host limits caller loader none before
        decideChain host caller (evalBlock host limits caller loader) () bs otherwise
        evalNodes host limits caller loader none after) ∧
      execNodes host limits caller within none (before ++ (ns ++ after)) = (do
        match ← execNodes host limits caller within none before with
        | some v => return some v
        | none =>
            match ← decideChain host caller (execBlock host limits caller within) none bs otherwise with
            | some v => return some v
            | none => execNodes host limits caller within none after)) ∧
    (∀ before e cs after, IsRule "else" cs e → ¬ EndsOpen before →
      evalNodes host limits caller loader none (before ++ e :: after) = (do
        evalNodes host limits caller loader none before
        fault .elseWithoutIf) ∧
      execNodes host limits caller within none (before ++ e :: after) = (do
        match ← execNodes host limits caller within none before with
        | some v => return some v
        | none => fault .elseWithoutIf)) ∧
    (∀ read keyword params brace inside close, Headed read (.atRule keyword params brace) →
      ∃ ps, read = keyword :: (ps ++ [brace]) ∧
        ((∃ condition, AsksIf (Rule.parameters
          ((Head.atRule keyword params brace).withBlock inside close).children) condition) ↔
          SaysIf ps)) := by
  refine ⟨fun before ns after bs otherwise h => ?_, fun before e cs after he h => ?_,
    fun _ _ _ _ inside close h => h.asksIf_iff inside close⟩
  · have hcut := ofNodes_chain h before
    have hexec (place : Place σ) := execLinks_chosen host limits caller place bs otherwise
    refine ⟨?_, ?_⟩
    · have hblock : evalBlock host limits caller loader = fun cs =>
          (do let _ ← Stmt.execAll host limits caller (.top loader) (Stmt.block cs)) :=
        funext (evalBlock_eq host limits caller loader)
      rw [evalNodes_append host limits caller loader hcut, Stmt.exec, hexec, hblock, decideChain_void,
        evalNodes_ofNodes host limits caller loader after]
      simp only [bind_assoc, pure_bind]
    · have hblock : execBlock host limits caller within = fun cs =>
          Stmt.execAll host limits caller within.place (Stmt.block cs) :=
        funext (execBlock_eq host limits caller within)
      rw [execNodes_append host limits caller within hcut, Stmt.exec, hexec, hblock,
        execNodes_ofNodes host limits caller within after]
  · have hcut := ofNodes_stray he h after
    refine ⟨?_, ?_⟩
    · rw [evalNodes_append host limits caller loader hcut, Stmt.exec]
      rfl
    · rw [execNodes_append host limits caller within hcut, Stmt.exec]
      rfl

end Walk

end

namespace Walk

/-- A rule of some keyword with an empty block. -/
def sampleRule (keyword : String) (params : List Node) : Node :=
  .sequence .atRule
    (.leaf .atKeyword keyword none :: (params ++ [.sequence .block [] none])) none

/-- An `@if`, an `@else` with a condition behind a comment, and an `@else` without one. -/
def sampleChain : List Node :=
  [sampleRule "if" [.leaf .identifier "false" none], .leaf .blockComment " c " none] ++
    [sampleRule "else" [.leaf .space " " none, .leaf .identifier "if" none,
      .leaf .identifier "true" none]] ++ [sampleRule "else" []]

def sampleBranches : List Branch :=
  [⟨[.leaf .identifier "false" none],
      (sampleRule "if" [.leaf .identifier "false" none]).children⟩] ++
    [⟨[.leaf .identifier "true" none],
      (sampleRule "else" [.leaf .space " " none, .leaf .identifier "if" none,
        .leaf .identifier "true" none]).children⟩]

theorem sample_wholeChain (after : List Node) : WholeChain after sampleChain sampleBranches
    (some (sampleRule "else" []).children) := by
  have hopen : OpenChain [sampleRule "if" [.leaf .identifier "false" none],
      .leaf .blockComment " c " none] _ := .idle (.first ⟨none, rfl, rfl⟩) rfl
  refine .withElse (.next hopen ⟨none, rfl, rfl⟩ ⟨[.leaf .space " " none], _, rfl, ?_, rfl⟩)
    ⟨none, rfl, rfl⟩ ?_
  · simp [Node.is, Node.kind]
  · rintro condition ⟨blanks, word, hparams, -⟩
    cases blanks <;> cases hparams

theorem chooses_sample :
    let host := Import.fileHost (σ := List Log.Record) (.ofList []) [] ⟨"./entry.scss"⟩ .empty
    let caller := callAt host .standard 1
    let loader := Render.loader host .standard none .entry
    (WholeChain [] sampleChain sampleBranches (some (sampleRule "else" []).children) ∧
      evalNodes host .standard caller loader none ([] ++ (sampleChain ++ [])) = (do
        evalNodes host .standard caller loader none []
        decideChain host caller (evalBlock host .standard caller loader) () sampleBranches
          (some (sampleRule "else" []).children)
        evalNodes host .standard caller loader none [])) ∧
    (IsRule "else" (sampleRule "else" []).children (sampleRule "else" []) ∧ ¬ EndsOpen [] ∧
      evalNodes host .standard caller loader none ([] ++ sampleRule "else" [] :: []) = (do
        evalNodes host .standard caller loader none []
        fault .elseWithoutIf)) := by
  intro host caller loader
  obtain ⟨hchain, hstray, -⟩ := chooses host .standard caller loader .stylesheet
  have helse : IsRule "else" (sampleRule "else" []).children (sampleRule "else" []) :=
    ⟨none, rfl, rfl⟩
  have hopen : ¬ EndsOpen [] := by
    rintro ⟨front, ns, bs, hnil, hopen⟩
    obtain ⟨-, rfl⟩ := List.append_eq_nil_iff.1 hnil.symm
    obtain ⟨p, ps, hps, -⟩ := hopen.pieces_eq
    cases hps
  exact ⟨⟨sample_wholeChain [], (hchain [] _ [] _ _ (sample_wholeChain [])).1⟩, helse, hopen,
    (hstray [] _ _ [] helse hopen).1⟩

/-- **Links that lose their condition:** with a parenthesis right behind the word `if`, and with a
comment before it. Their blocks run although the condition is false. -/
theorem chooses_counterexample :
    Import.succeeds (Import.renderFiles (.ofList [])
      "@if false \x7b\x7d @else if (false) \x7b @error ran; \x7d") = true ∧
    Import.succeeds (Import.renderFiles (.ofList [])
      "@if false \x7b\x7d @else if(false) \x7b @error ran; \x7d") = false ∧
    Import.succeeds (Import.renderFiles (.ofList [])
      "@if false \x7b\x7d @else /* c */ if false \x7b @error ran; \x7d") = false := by
  refine ⟨?_, ?_, ?_⟩
  · decide +kernel
  · decide +kernel
  · decide +kernel

end Walk
end Stylesheet
