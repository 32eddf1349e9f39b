import Stylesheet.Proofs.Expr.Muted
import Stylesheet.Rule.OfNode

/-!
# Statements without the texts that they were read from

The statements of muted code: all of their expressions and faults are muted.

* `Stmt.mute`: a statement without the texts that only messages show.
* `Stmt.assemble_mute`: pieces are put together the same way with and without them.
-/

namespace Stylesheet

/-- A part of a rule, or the fault that it is not well formed. -/
def muteResult {α : Type} (mute : α → α) : Except Fault α → Except Fault α
  | .ok a => .ok (mute a)
  | .error f => .error f.mute

theorem muteResult_mute {α : Type} {mute : α → α} (h : ∀ a, mute (mute a) = mute a)
    (r : Except Fault α) : muteResult mute (muteResult mute r) = muteResult mute r := by
  cases r with
  | ok a => exact congrArg Except.ok (h a)
  | error f => exact congrArg Except.error f.mute_mute

/-! ### Parts of rules -/

def Parameter.mute (p : Parameter) : Parameter := { p with default := p.default.map Expr.mute }

def Signature.mute (s : Signature) : Signature :=
  { s with parameters := s.parameters.map Parameter.mute }

def EachHeader.mute (h : EachHeader) : EachHeader := { h with list := h.list.mute }

def ForHeader.mute (h : ForHeader) : ForHeader :=
  { h with first := h.first.mute, last := h.last.mute }

/-- The values that a module is configured with. -/
def muteSettings (settings : List (Name × Expr)) : List (Name × Expr) :=
  settings.map fun (n, e) => (n, e.mute)

def LoadHeader.mute (h : LoadHeader) : LoadHeader :=
  { h with configuration := h.configuration.map (muteResult muteSettings) }

theorem Parameter.mute_mute (p : Parameter) : p.mute.mute = p.mute := by
  obtain ⟨name, default, rest⟩ := p
  cases default with
  | none => rfl
  | some e => simp [mute, Expr.mute_mute]

theorem Signature.mute_mute (s : Signature) : s.mute.mute = s.mute := by
  simp [mute, Parameter.mute_mute, Function.comp_def]

theorem EachHeader.mute_mute (h : EachHeader) : h.mute.mute = h.mute := by
  simp [mute, Expr.mute_mute]

theorem ForHeader.mute_mute (h : ForHeader) : h.mute.mute = h.mute := by
  simp [mute, Expr.mute_mute]

theorem muteSettings_mute (settings : List (Name × Expr)) :
    muteSettings (muteSettings settings) = muteSettings settings := by
  simp [muteSettings, Expr.mute_mute, Function.comp_def]

theorem LoadHeader.mute_mute (h : LoadHeader) : h.mute.mute = h.mute := by
  simp [mute, muteResult_mute muteSettings_mute, Function.comp_def]

/-! ### Statements -/

namespace Stmt

mutual

/-- The same statement, without the texts that it was read from. -/
def mute : Stmt → Stmt
  | inert => inert
  | declare name e isDefault isGlobal => declare name e.mute isDefault isGlobal
  | rule body => rule (muteAll body)
  | .scoped keyword body => .scoped keyword (muteAll body)
  | choose links otherwise => choose (muteLinks links) (muteAll otherwise)
  | strayElse => strayElse
  | each header body => each (muteResult EachHeader.mute header) (muteAll body)
  | .for header body => .for (muteResult ForHeader.mute header) (muteAll body)
  | .while condition body => .while condition.mute (muteAll body)
  | report what e => report what e.mute
  | .return e => .return e.mute
  | function signature body => function (muteResult Signature.mute signature) (muteAll body)
  | imports urls => imports urls
  | load what header => load what (muteResult LoadHeader.mute header)
  | other keyword => other keyword

def muteAll : List Stmt → List Stmt
  | [] => []
  | s :: ss => s.mute :: muteAll ss

def muteLinks : List (Expr × List Stmt) → List (Expr × List Stmt)
  | [] => []
  | (condition, body) :: links => (condition.mute, muteAll body) :: muteLinks links

end

theorem muteAll_eq_map (ss : List Stmt) : muteAll ss = ss.map mute := by
  induction ss with
  | nil => rfl
  | cons s ss ih => rw [muteAll, ih, List.map_cons]

theorem muteLinks_eq_map (links : Links) :
    muteLinks links = links.map fun link => (link.1.mute, muteAll link.2) := by
  induction links with
  | nil => rfl
  | cons link links ih => rw [muteLinks, ih, List.map_cons]

mutual

/-- Nothing is left to mute. -/
theorem mute_mute (s : Stmt) : s.mute.mute = s.mute := by
  cases s with
  | inert | strayElse | imports | other => rfl
  | declare name e isDefault isGlobal => rw [mute, mute, Expr.mute_mute]
  | rule body | «scoped» keyword body => rw [mute, mute, muteAll_mute body]
  | choose links otherwise => rw [mute, mute, muteLinks_mute links, muteAll_mute otherwise]
  | each header body => rw [mute, mute, muteResult_mute EachHeader.mute_mute, muteAll_mute body]
  | «for» header body => rw [mute, mute, muteResult_mute ForHeader.mute_mute, muteAll_mute body]
  | «while» condition body => rw [mute, mute, Expr.mute_mute, muteAll_mute body]
  | report what e | «return» e => rw [mute, mute, Expr.mute_mute]
  | function signature body =>
    rw [mute, mute, muteResult_mute Signature.mute_mute, muteAll_mute body]
  | load what header => rw [mute, mute, muteResult_mute LoadHeader.mute_mute]

theorem muteAll_mute (ss : List Stmt) : muteAll (muteAll ss) = muteAll ss := by
  match ss with
  | [] => rfl
  | s :: ss => rw [muteAll, muteAll, mute_mute s, muteAll_mute ss]

theorem muteLinks_mute (links : List (Expr × List Stmt)) :
    muteLinks (muteLinks links) = muteLinks links := by
  match links with
  | [] => rfl
  | (condition, body) :: links =>
    rw [muteLinks, muteLinks, Expr.mute_mute, muteAll_mute body, muteLinks_mute links]

end

end Stmt

/-! ### Pieces -/

/-- The same piece, without the texts that it was read from. -/
def Piece.mute : Piece → Piece
  | stmt s => stmt s.mute
  | ifLink condition body => ifLink condition.mute (Stmt.muteAll body)
  | elseIfLink condition body => elseIfLink condition.mute (Stmt.muteAll body)
  | elseLink body => elseLink (Stmt.muteAll body)

namespace Stmt

theorem ofLinks_mute (links : Links) : muteAll (ofLinks links) = ofLinks (muteLinks links) := by
  cases links with
  | nil => rfl
  | cons link links =>
    have hreverse : muteLinks (link :: links).reverse = (muteLinks (link :: links)).reverse := by
      rw [muteLinks_eq_map, muteLinks_eq_map, List.map_reverse]
    show [Stmt.choose (muteLinks _) _] = _
    rw [hreverse]
    rfl

theorem muteAll_append (ss ss' : List Stmt) : muteAll (ss ++ ss') = muteAll ss ++ muteAll ss' := by
  rw [muteAll_eq_map, muteAll_eq_map, muteAll_eq_map, List.map_append]

/-- **Pieces are put together** without a look at the texts that they were read from. -/
theorem assemble_mute (links : Links) (ps : List Piece) :
    muteAll (assemble links ps) = assemble (muteLinks links) (ps.map Piece.mute) := by
  induction ps generalizing links with
  | nil => exact ofLinks_mute links
  | cons p ps ih =>
    have hempty : (muteLinks links).isEmpty = links.isEmpty := by
      rw [muteLinks_eq_map]
      cases links <;> rfl
    have hreverse : muteLinks links.reverse = (muteLinks links).reverse := by
      rw [muteLinks_eq_map, muteLinks_eq_map, List.map_reverse]
    cases p with
    | stmt s =>
      simp only [List.map_cons, Piece.mute, assemble, muteAll_append, ofLinks_mute, muteAll, ih,
        muteLinks]
    | ifLink condition body =>
      simp only [List.map_cons, Piece.mute, assemble, muteAll_append, ofLinks_mute, ih, muteLinks]
    | elseIfLink condition body =>
      simp only [List.map_cons, Piece.mute, assemble, hempty]
      split
      · simp only [muteAll, ih, mute, muteLinks]
      · rw [ih, muteLinks]
    | elseLink body =>
      simp only [List.map_cons, Piece.mute, assemble, hempty, muteAll, ih, muteLinks]
      split
      · rfl
      · rw [mute, hreverse]

/-- Pieces that are the same but for their texts are put together alike. -/
theorem muteAll_assemble {ps ps' : List Piece} (h : ps.map Piece.mute = ps'.map Piece.mute) :
    muteAll (assemble [] ps) = muteAll (assemble [] ps') := by
  rw [assemble_mute, assemble_mute, h]

end Stmt
end Stylesheet
