import Stylesheet.Proofs.Render.LedgerFiles
import Stylesheet.Proofs.Render.Scopes

/-!
# Deeds

Two things are done to a stylesheet from inside of blocks, loops and calls that outlive them: a
`!global` declaration sets a variable of it, and a rule loads a module into it. These deeds are
noted with the path of the stylesheet; without one of its own, a stylesheet is changed in its
innermost block only.

* `Deed.notes`: the notes of deeds.
* `Deed.Called`, `Deed.Ran`: what expressions and statements change, by their deeds.
* `Deed.ledger`, `Deed.calling`: that is all that they change.
-/

namespace Stylesheet

open Render

/-- What is done to a stylesheet beyond its blocks. -/
inductive Deed where
  /-- A variable of the stylesheet is set by a `!global` declaration. -/
  | setsGlobal (path : Option Path)
  /-- A rule loads a module. -/
  | loads (path : Option Path)

namespace Deed

variable {σ : Type}

/-- Note a deed with the path of the stylesheet that is running. -/
def note (deed : Option Path → Deed) : Render (Traced Deed σ) Unit := do
  let s ← sheet
  Traced.note (deed s.path)

/-- The notes of deeds. -/
def notes : Notes (Traced Deed σ) where
  global := note setsGlobal
  load act := do
    note loads
    act

/-- No deed is noted of a stylesheet. Only statements at the top of a file load modules. -/
structure None (g : Ground) (path : Option Path) (ds : List Deed) : Prop where
  global : setsGlobal path ∉ ds
  load : g = .top → loads path ∉ ds

/-! ### Changes -/

/-- **What expressions change** of a rendering: variables of the stylesheet, by deeds of its own. -/
structure Called (ds : List Deed) (s s' : State σ) : Prop where
  locals : s'.sheet.scopes.locals = s.sheet.scopes.locals
  functions : s'.sheet.functions = s.sheet.functions
  namespaces : s'.sheet.namespaces = s.sheet.namespaces
  path : s'.sheet.path = s.sheet.path
  modules : s'.modules = s.modules
  global : setsGlobal s.sheet.path ∉ ds → s'.sheet.scopes.global = s.sheet.scopes.global

/-- A change of the variables in reach that is allowed unless there are deeds. The same blocks are
open after it. -/
structure Leaves (P : Scopes → Scopes → Prop) (g : Ground) (ds : List Deed) (s s' : State σ) :
    Prop where
  path : s'.sheet.path = s.sheet.path
  shape : s'.sheet.scopes.shape = s.sheet.scopes.shape
  scopes : None g s.sheet.path ds → P s.sheet.scopes s'.sheet.scopes

/-- **What statements change** of a rendering: the innermost block, and by deeds of their own the
variables of the stylesheet, the namespaces and the modules. Functions are declared in none. -/
structure Ran (g : Ground) (ds : List Deed) (s s' : State σ) : Prop
    extends Leaves Scopes.Assigned g ds s s' where
  functions : g = .function → s'.sheet.functions = s.sheet.functions
  namespaces : (g = .top → loads s.sheet.path ∉ ds) → s'.sheet.namespaces = s.sheet.namespaces
  modules : (g = .top → loads s.sheet.path ∉ ds) → s'.modules = s.modules

/-- What a rule that loads a module changes: no block and not the path. -/
structure Loaded (_ : List Deed) (s s' : State σ) : Prop where
  path : s'.sheet.path = s.sheet.path
  locals : s'.sheet.scopes.locals = s.sheet.scopes.locals

variable {P : Scopes → Scopes → Prop} {g : Ground} {ds ds' : List Deed} {s s' s'' : State σ}

theorem None.split {path : Option Path} (h : None g path (ds' ++ ds)) :
    None g path ds ∧ None g path ds' := by
  obtain ⟨hglobal, hload⟩ := h
  rw [List.mem_append, not_or] at hglobal
  refine ⟨⟨hglobal.2, fun hg hd => ?_⟩, ⟨hglobal.1, fun hg hd => ?_⟩⟩
  · exact hload hg (List.mem_append_right _ hd)
  · exact hload hg (List.mem_append_left _ hd)

theorem composes_called : Composes (Called (σ := σ)) where
  refl _ := ⟨rfl, rfl, rfl, rfl, rfl, fun _ => rfl⟩
  trans h h' := by
    refine ⟨h'.locals.trans h.locals, h'.functions.trans h.functions,
      h'.namespaces.trans h.namespaces, h'.path.trans h.path, h'.modules.trans h.modules, ?_⟩
    intro hd
    rw [List.mem_append, not_or] at hd
    exact (h'.global (h.path ▸ hd.1)).trans (h.global hd.2)

theorem composes_leaves (hrefl : ∀ a, P a a) (htrans : ∀ {a b c}, P a b → P b c → P a c)
    (g : Ground) : Composes (Leaves (σ := σ) P g) where
  refl _ := ⟨rfl, rfl, fun _ => hrefl _⟩
  trans h h' := by
    refine ⟨h'.path.trans h.path, h'.shape.trans h.shape, fun hd => ?_⟩
    exact htrans (h.scopes hd.split.1) (h'.scopes (h.path ▸ hd.split.2))

theorem composes_ran (g : Ground) : Composes (Ran (σ := σ) g) where
  refl s := { (composes_leaves Scopes.Assigned.refl .trans g).refl s with
    functions := fun _ => rfl, namespaces := fun _ => rfl, modules := fun _ => rfl }
  trans {ds ds' s s' s''} h h' := by
    have first (hl : g = .top → loads s.sheet.path ∉ ds' ++ ds) (hg : g = .top) :
        loads s.sheet.path ∉ ds := fun hd => hl hg (List.mem_append_right _ hd)
    have second (hl : g = .top → loads s.sheet.path ∉ ds' ++ ds) (hg : g = .top) :
        loads s'.sheet.path ∉ ds' := fun hd => hl hg (List.mem_append_left _ (h.path ▸ hd))
    exact { (composes_leaves Scopes.Assigned.refl .trans g).trans h.toLeaves h'.toLeaves with
      functions := fun hg => (h'.functions hg).trans (h.functions hg)
      namespaces := fun hl => (h'.namespaces (second hl)).trans (h.namespaces (first hl))
      modules := fun hl => (h'.modules (second hl)).trans (h.modules (first hl)) }

theorem composes_loaded : Composes (Loaded (σ := σ)) where
  refl _ := ⟨rfl, rfl⟩
  trans h h' := ⟨h'.path.trans h.path, h'.locals.trans h.locals⟩

namespace Called

theorem leaves (h : Called ds s s') (hrefl : ∀ a, P a a) : Leaves P g ds s s' where
  path := h.path
  shape := congrArg (List.map Scope.control) h.locals
  scopes hd := by
    rw [Scopes.ext h.locals (h.global hd.global)]
    exact hrefl _

theorem ran (h : Called ds s s') : Ran g ds s s' :=
  { h.leaves Scopes.Assigned.refl with
    functions := fun _ => h.functions, namespaces := fun _ => h.namespaces
    modules := fun _ => h.modules }

theorem loaded (h : Called ds s s') : Loaded ds s s' := ⟨h.path, h.locals⟩

end Called

/-! ### The ledger -/

/-- What is left of a block when it is closed. -/
theorem Ran.block {scope : Scope}
    (h : Ran g ds { s with sheet := { s.sheet with scopes := s.sheet.scopes.push scope } } s')
    (hP : ∀ b, Scopes.Assigned (s.sheet.scopes.push scope) b → P s.sheet.scopes b.pop) :
    Leaves P g ds s { s' with sheet := { s'.sheet with scopes := s'.sheet.scopes.pop } } where
  path := h.path
  shape := Scopes.shape_pop h.shape
  scopes hd := hP _ (h.scopes hd)

theorem ran_function (hg : g ≠ .function) (s : State σ) (n : Name) (f : UserFunction) :
    Ran g [] s { s with sheet := { s.sheet with functions := s.sheet.functions.insert n f } } where
  path := rfl
  shape := rfl
  scopes _ := .refl _
  functions h := absurd h hg
  namespaces _ := rfl
  modules _ := rfl

/-- What a rule does with a module, it does to no block. -/
theorem loaded_of_taken (h : Taken Loaded ds s s') : Loaded ds s s' := by
  obtain ⟨s₁, hloaded, rfl | htaking⟩ := h
  · exact hloaded
  · cases htaking <;> exact ⟨hloaded.path, hloaded.locals⟩

variable [Log.Sink σ]

/-- **The ledger of deeds.** -/
def ledger : Ledger Deed σ where
  notes := notes
  Called := Called
  Ran := Ran
  Loaded := Loaded
  called := composes_called
  ran := composes_ran
  loaded := composes_loaded
  ran_of_called g _ _ _ h := h.ran
  loaded_of_called h := h.loaded
  top_of_loop h := {
    path := h.path
    shape := h.shape
    scopes := fun hd => h.scopes ⟨hd.global, nofun⟩
    functions := nofun
    namespaces := fun _ => h.namespaces nofun
    modules := fun _ => h.modules nofun }
  host _ _ := ⟨rfl, rfl, rfl, rfl, rfl, fun _ => rfl⟩
  before g := .ret (composes_ran g) trivial
  behind g := .ret (composes_ran g) trivial
  default g := .ret (composes_ran g) trivial
  start g := .ret (composes_ran g) trivial
  value _ := .ret composes_called trivial
  loops := rfl
  assign g s n v := {
    path := rfl
    shape := (Scopes.assigned_assign _ n v).shape_eq
    scopes := fun _ => Scopes.assigned_assign _ n v
    functions := fun _ => rfl
    namespaces := fun _ => rfl
    modules := fun _ => rfl }
  global g n v s es := ⟨[setsGlobal s.sheet.path], rfl, {
    path := rfl
    shape := Scopes.shape_setGlobal _ n v
    scopes := fun hd => absurd List.mem_cons_self hd.global
    functions := fun _ => rfl
    namespaces := fun _ => rfl
    modules := fun _ => rfl }, fun _ _ => trivial⟩
  function hg _ _ := .declareFunction (composes_ran _)
    (fun _ _ => Called.ran ⟨rfl, rfl, rfl, rfl, rfl, fun _ => rfl⟩) (ran_function hg)
  block g scope ds s s' h := {
    h.block (P := Scopes.Assigned) (by
      intro b hb
      -- behind a block that is no loop's, its variables are gone with it
      obtain ⟨bindings, _ | _⟩ := scope
      · exact hb.pop_block ▸ .refl _
      · exact hb.pop_loop.assigned) with
    functions := h.functions
    namespaces := h.namespaces
    modules := h.modules }
  -- the deed of the rule itself allows what it does to this stylesheet
  load ha s es := by
    obtain ⟨ds, hrun, htaken, hQ⟩ := ha s (loads s.sheet.path :: es)
    have h := loaded_of_taken htaken
    refine ⟨ds ++ [loads s.sheet.path], ?_, ?_, hQ⟩
    · rw [List.append_assoc]
      exact hrun
    · have mem : loads s.sheet.path ∈ ds ++ [loads s.sheet.path] :=
        List.mem_append_right _ List.mem_cons_self
      exact {
        path := h.path
        shape := congrArg (List.map Scope.control) h.locals
        scopes := fun hd => absurd mem (hd.load rfl)
        functions := nofun
        namespaces := fun hd => absurd mem (hd rfl)
        modules := fun hd => absurd mem (hd rfl) }

theorem homing : (ledger (σ := σ)).Homing :=
  .of_changes (fun _ _ _ => rfl)
    (fun {_ s _} h => {
      locals := rfl
      functions := h.functions rfl
      namespaces := h.namespaces nofun
      path := h.path
      modules := h.modules nofun
      -- assignments of the body reach its own block at most
      global := fun hd =>
        (h.scopes ⟨hd, nofun⟩).global_of_block (a := ⟨[], s.sheet.scopes.global⟩) })
    fun _ h => {
      locals := rfl
      functions := rfl
      namespaces := rfl
      path := rfl
      modules := h.modules nofun
      global := fun _ => rfl }

/-- **What is left of calls, imports and modules.** -/
theorem calling : (ledger (σ := σ)).Calling where
  toHoming := homing
  imported ha := ha.around fun _ _ _ h => {
    path := h.path
    shape := h.shape
    scopes := h.scopes
    functions := nofun
    namespaces := fun _ => rfl
    modules := h.modules }
  read _ := .ret composes_called trivial
  shared _ _ := .ret composes_loaded trivial
  loaded hr p _ _ body := by
    have C := composes_loaded (σ := σ)
    refine .bind C (Ledger.runModule hr p (fun _ => ⟨rfl, rfl⟩) body) fun m _ => ?_
    refine .noting C (.ret C trivial) ?_
    exact .bind C (.of_run (fun _ _ => rfl) fun _ => ⟨rfl, rfl⟩) fun _ _ => .ret C trivial

end Deed
end Stylesheet
