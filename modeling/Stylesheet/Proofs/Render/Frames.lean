import Stylesheet.Proofs.Render.Deeds

/-!
# Calls and blocks leave the rest alone

A call reaches nothing of the stylesheet that it stands in but variables of the stylesheet itself,
by `!global` declarations, and sees nothing else of it. A block of a rule changes no variable around
it, and a loop changes values only.

* `Render.callAt_frame`: what a call leaves as it is, and what it does not depend on.
* `Render.exec_scoping`: what a block and a loop leave as they are.
-/

namespace Stylesheet

variable {σ : Type}

/-- The same state in which other blocks are open. -/
def State.withLocals (s : State σ) (locals : List Scope) : State σ :=
  { s with sheet := { s.sheet with scopes := { s.sheet.scopes with locals } } }

namespace Render

/-! ### Calls -/

section

variable {α : Type} (name : String) (f : UserFunction) (act : Render σ α) (s : State σ)

/-- The body of a function does the same whatever blocks are open around the call. -/
theorem run_atHome_withLocals (locals : List Scope) :
    (atHome name f act).run (s.withLocals locals) =
      (((atHome name f act).run s).1, ((atHome name f act).run s).2.withLocals locals) := by
  rcases isHome_or_isAway f s with h | ⟨p, m, h⟩ | ⟨p, hp, hpath, hm⟩
  · have h' : IsHome f (s.withLocals locals).sheet := h
    rw [run_atHome_home _ _ h, run_atHome_home _ _ h']
    rfl
  · have h' : IsAway f (s.withLocals locals) p m := h
    rw [run_atHome_away _ _ h, run_atHome_away _ _ h']
    rfl
  · rw [run_atHome_missing _ _ hp hpath hm,
      run_atHome_missing _ _ (s := s.withLocals locals) hp hpath hm]

/-- The body of a function of another module does the same whatever stylesheet is running around
the call, and leaves it as it is. -/
theorem run_atHome_withSheet {sheet : Sheet} (h : ¬ IsHome f s.sheet) (h' : ¬ IsHome f sheet) :
    (atHome name f act).run { s with sheet } =
      (((atHome name f act).run s).1, { ((atHome name f act).run s).2 with sheet }) := by
  have away {p : Path} (hp : f.home = some p) : (sheet.path == some p) = false :=
    Bool.eq_false_iff.2 fun hpath => h' ((isHome_iff hp sheet).2 hpath)
  rcases isHome_or_isAway f s with hs | ⟨p, m, hp, hpath, hm⟩ | ⟨p, hp, hpath, hm⟩
  · exact absurd hs h
  · have hs : IsAway f s p m := ⟨hp, hpath, hm⟩
    have hs' : IsAway f { s with sheet } p m := ⟨hp, away hp, hm⟩
    rw [run_atHome_away _ _ hs, run_atHome_away _ _ hs']
  · rw [run_atHome_missing _ _ hp hpath hm,
      run_atHome_missing _ _ (s := { s with sheet }) hp (away hp) hm]

variable [Log.Sink σ] (h : Host σ) (limits : Limits) (n : Nat) (args : Arguments)

/-- What its body does not depend on, a call does not depend on. -/
theorem run_callAt_of_atHome (put : State σ → State σ)
    (hput : ∀ act : Render σ (Option Value), (atHome name f act).run (put s) =
      (((atHome name f act).run s).1, put ((atHome name f act).run s).2)) :
    (callAt h limits n name f args).run (put s) =
      (((callAt h limits n name f args).run s).1,
        put ((callAt h limits n name f args).run s).2) := by
  cases n with
  | zero => rfl
  | succ n =>
    unfold callAt invoke
    rw [run_bind, run_bind, hput]
    rcases (atHome name f _).run s with ⟨_ | _ | _, s'⟩ <;> rfl

/-- **Calls do not leak.** Whether it returns or fails, a call leaves the open blocks, the
functions, the namespaces, the path and the modules as they were, and the variables of the
stylesheet unless a body that belongs to it executes a `!global` declaration. It does the same
whatever blocks are open around it. If the function belongs to another module, the whole stylesheet
stays as it was, and the call does the same whatever stylesheet it is. -/
theorem callAt_frame : ∃ r s' ds, (callAt h limits n name f args).run s = (r, s') ∧
    (Noted.callAt Deed.notes (Traced.host h) limits n name f args).run (Traced.ofState s []) =
      (r, Traced.ofState s' ds) ∧
    Deed.Called ds s s' ∧
    (∀ locals, (callAt h limits n name f args).run (s.withLocals locals) =
      (r, s'.withLocals locals)) ∧
    (¬ IsHome f s.sheet → s'.sheet = s.sheet ∧ ∀ sheet, ¬ IsHome f sheet →
      (callAt h limits n name f args).run { s with sheet } = (r, { s' with sheet })) := by
  obtain ⟨ds, hrun, hcalled, _⟩ :=
    Deed.calling.callAt h limits n name f args s trivial []
  rw [List.append_nil] at hrun
  refine ⟨_, _, ds, rfl, hrun, hcalled, fun locals => ?_, fun hs => ?_⟩
  · exact run_callAt_of_atHome name f s h limits n args (·.withLocals locals) fun act =>
      run_atHome_withLocals name f act s locals
  · have other (sheet : Sheet) (hsheet : ¬ IsHome f sheet) :=
      run_callAt_of_atHome name f s h limits n args (fun s => { s with sheet }) fun act =>
        run_atHome_withSheet name f act s hs hsheet
    exact ⟨congrArg (·.2.sheet) (other s.sheet hs), other⟩

end

/-! ### Blocks -/

/-- Where statements of a file stand, in which imports may lie so many inside each other. -/
def placeAt {τ : Type} [Log.Sink τ] (h : Host τ) (limits : Limits) (m : Nat) (origin : Origin) :
    Ground → Place τ
  | .top => .top (loaderAt h limits m origin)
  | .loop => .loop
  | .function => .function

end Render

/-- The same with notes. -/
def Noted.placeAt {τ : Type} [Log.Sink τ] (notes : Notes τ) (h : Host τ) (limits : Limits) (m : Nat)
    (origin : Origin) : Ground → Place τ
  | .top => .top (loaderAt notes h limits m origin)
  | .loop => .loop
  | .function => .function

namespace Stmt

/-- The statement has a block that is a scope: a rule, or an at-rule such as `@media`. -/
def isBlock : Stmt → Bool
  | .rule _ | .scoped _ _ => true
  | _ => false

def isLoop : Stmt → Bool
  | .each _ _ | .for _ _ | .while _ _ => true
  | _ => false

end Stmt

namespace Render

variable [Log.Sink σ] (h : Host σ) (limits : Limits) (m : Nat) (origin : Origin)

theorem ground_placeAt (g : Ground) : (placeAt h limits m origin g).ground = g := by
  cases g <;> rfl

theorem placeAt_places (g : Ground) : Deed.ledger.Places (placeAt h limits m origin g)
    (Noted.placeAt Deed.notes (Traced.host h) limits m origin g) := by
  cases g with
  | top => exact .top (Deed.calling.loaderAt h limits m origin)
  | loop => exact .loop
  | function => exact .function

variable {caller : Caller σ} {caller' : Caller (Traced Deed σ)} {place : Place σ}
  {place' : Place (Traced Deed σ)} (callers : Deed.ledger.Callers caller caller')
  (hp : Deed.ledger.Places place place')
include callers hp

/-- **A block** leaves all variables in reach as they are. -/
theorem block_leaves (body : List Stmt) :
    Accounts (Deed.Leaves (fun a b => b = a) place.ground) (fun _ => True)
      (inScope ⟨.empty, false⟩ (Stmt.execAll h limits caller place body))
      (inScope ⟨.empty, false⟩
        (Noted.execAll Deed.notes (Traced.host h) limits caller' place' body)) :=
  (Ledger.execAll h limits callers hp body).around fun _ _ _ hran =>
    Deed.Ran.block hran fun _ hb => hb.pop_block

/-- **A round of a loop** changes values of variables in reach. -/
theorem round_leaves (body : List Stmt) (scope : Scope) (hs : scope.control = true) :
    Accounts (Deed.Leaves Scopes.Rebound place.ground) (fun _ => True)
      (inScope scope (Stmt.execAll h limits caller place.inner body))
      (inScope scope (do
        Deed.notes.start
        Noted.execAll Deed.notes (Traced.host h) limits caller' place'.inner body)) := by
  have hbody := Accounts.noting (Deed.ledger.ran _) (Deed.ledger.start _)
    (Ledger.execAll h limits callers hp.inner body)
  refine hbody.around fun _ _ _ hran => Deed.Ran.block (Deed.ledger.ran_of_inner hran) fun _ hb => ?_
  obtain ⟨bindings, control⟩ := scope
  cases hs
  exact hb.pop_loop

theorem exec_leaves_of_isBlock {b : Stmt} (hb : b.isBlock = true) :
    Accounts (Deed.Leaves (fun a b => b = a) place.ground) (fun _ => True)
      (b.exec h limits caller place)
      (Noted.exec Deed.notes (Traced.host h) limits caller' place' b) := by
  let C := (Deed.composes_leaves (σ := σ) (P := fun a b => b = a) (fun _ => rfl)
    (fun hab hbc => hbc.trans hab) place.ground).concord
  cases b with
  | rule body =>
    simp only [Noted.exec, Stmt.exec, hp.isFunction_eq]
    split
    · exact C.fail _
    · exact block_leaves h limits callers hp body
  | «scoped» keyword body =>
    simp only [Noted.exec, Stmt.exec, hp.isFunction_eq]
    split
    · exact C.fail _
    · exact block_leaves h limits callers hp body
  | _ => cases hb

theorem exec_leaves_of_isLoop {b : Stmt} (hb : b.isLoop = true) :
    Accounts (Deed.Leaves Scopes.Rebound place.ground) (fun _ => True)
      (b.exec h limits caller place)
      (Noted.exec Deed.notes (Traced.host h) limits caller' place' b) := by
  have hR := Deed.composes_leaves (σ := σ) Scopes.Rebound.refl .trans place.ground
  have value (e : Expr) : Accounts (Deed.Leaves Scopes.Rebound place.ground) (fun _ => True)
      (e.eval h caller) (e.eval (Traced.host h) caller') :=
    (Ledger.eval h callers e).mono fun _ _ _ hcalled => Deed.Called.leaves hcalled .refl
  cases b with
  | each header body =>
    exact Ledger.each (L := Deed.ledger) h limits hR value (round_leaves h limits callers hp body) _
  | «for» header body =>
    exact Ledger.for (L := Deed.ledger) h limits hR value (round_leaves h limits callers hp body) _
  | «while» condition body =>
    exact Ledger.while (L := Deed.ledger) h limits hR value (round_leaves h limits callers hp body) _
  | _ => cases hb

omit callers hp

/-- **Scopes of blocks.** Whether it succeeds or fails, every statement leaves as many blocks open
as before it, of the same kinds. If no `!global` declaration and no rule that loads a module is
executed for the stylesheet meanwhile, all variables in reach are the same after a block, whatever
its statements are, and after a loop the same names are bound, to other values at most in the
bodies of loops that are open and in the first block around them. -/
theorem exec_scoping (n : Nat) (g : Ground) (b : Stmt) (s : State σ) : ∃ r s' ds,
    (b.exec h limits (callAt h limits n) (placeAt h limits m origin g)).run s = (r, s') ∧
    (Noted.exec Deed.notes (Traced.host h) limits (Noted.callAt Deed.notes (Traced.host h) limits n)
      (Noted.placeAt Deed.notes (Traced.host h) limits m origin g) b).run (Traced.ofState s []) =
        (r, Traced.ofState s' ds) ∧
    s'.sheet.scopes.shape = s.sheet.scopes.shape ∧
    (Deed.None g s.sheet.path ds →
      (b.isBlock = true → s'.sheet.scopes = s.sheet.scopes) ∧
      (b.isLoop = true → Scopes.Rebound s.sheet.scopes s'.sheet.scopes)) := by
  have callers := Deed.calling.callAt h limits n
  have hp := placeAt_places h limits m origin g
  obtain ⟨ds, hrun, hran, _⟩ := Ledger.exec h limits callers hp b s []
  rw [List.append_nil] at hrun
  refine ⟨_, _, ds, rfl, hrun, hran.shape, fun hd => ?_⟩
  rw [← ground_placeAt h limits m origin g] at hd
  constructor
  · exact fun hb => ((exec_leaves_of_isBlock h limits callers hp hb).change hrun).scopes hd
  · exact fun hb => ((exec_leaves_of_isLoop h limits callers hp hb).change hrun).scopes hd

end Render
end Stylesheet
