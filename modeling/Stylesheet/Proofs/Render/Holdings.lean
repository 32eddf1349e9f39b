import Stylesheet.Proofs.Expr.Literals
import Stylesheet.Proofs.Render.References
import Stylesheet.Render.Loops

/-!
# What stylesheets and modules hold

The values of all variables in reach belong to a family of values, and the code of all functions
has no literals but scalars. Both stay so under what rules and blocks do to a stylesheet.

* `Scopes.All`: the values of all variables in reach.
* `Sheet.Holds`, `Module.Holds`: the values and the code of a stylesheet and of a module.
-/

namespace Stylesheet

variable {V W : Value → Prop}

/-! ### Variables -/

/-- The values of all variables in reach belong to a family. -/
structure Scopes.All (V : Value → Prop) (s : Scopes) : Prop where
  locals : ∀ block ∈ s.locals, block.bindings.All V
  global : s.global.All V

namespace Scopes

variable {s : Scopes}

theorem All.imp (h : s.All V) (hVW : ∀ v, V v → W v) : s.All W :=
  ⟨fun block hb => (h.locals block hb).imp hVW, h.global.imp hVW⟩

theorem All.find? (h : s.All V) {n : Name} {v : Value} (hv : s.find? n = some v) : V v := by
  have local_ (blocks : List Scope) (hb : ∀ block ∈ blocks, block.bindings.All V) (v : Value)
      (hv : findLocal? n blocks = some v) : V v := by
    induction blocks with
    | nil => cases hv
    | cons block blocks ih =>
      rw [List.forall_mem_cons] at hb
      rw [findLocal?, Option.or_eq_some_iff] at hv
      rcases hv with hv | ⟨-, hv⟩
      · exact hb.1.find? hv
      · exact ih hb.2 hv
  rw [Scopes.find?, Option.or_eq_some_iff] at hv
  rcases hv with hv | ⟨-, hv⟩
  · exact local_ s.locals h.locals v hv
  · exact h.global.find? hv

theorem All.setGlobal (h : s.All V) (n : Name) {v : Value} (hv : V v) : (s.setGlobal n v).All V :=
  ⟨h.locals, h.global.insert n hv⟩

theorem All.push (h : s.All V) {scope : Scope} (hs : scope.bindings.All V) : (s.push scope).All V :=
  ⟨List.forall_mem_cons.2 ⟨hs, h.locals⟩, h.global⟩

theorem All.pop (h : s.All V) : s.pop.All V :=
  ⟨fun block hb => h.locals block (List.mem_of_mem_tail hb), h.global⟩

/-- An assignment that reaches a variable changes its value only. -/
theorem all_reassign? {n : Name} {v : Value} (hv : V v) {global : Bindings} {locals : List Scope}
    (h : All V ⟨locals, global⟩) {r : Scopes} (hr : reassign? n v global locals = some r) :
    r.All V := by
  induction locals generalizing r with
  | nil =>
    unfold reassign? at hr
    split at hr
    · cases hr
      exact ⟨nofun, h.global.insert n hv⟩
    · cases hr
  | cons block blocks ih =>
    obtain ⟨hlocals, hglobal⟩ := h
    rw [List.forall_mem_cons] at hlocals
    unfold reassign? at hr
    split at hr
    · cases hr
      exact ⟨List.forall_mem_cons.2 ⟨hlocals.1.insert n hv, hlocals.2⟩, hglobal⟩
    · split at hr
      · obtain ⟨r', hr', rfl⟩ := Option.map_eq_some_iff.1 hr
        have houter := ih ⟨hlocals.2, hglobal⟩ hr'
        exact ⟨List.forall_mem_cons.2 ⟨hlocals.1, houter.locals⟩, houter.global⟩
      · cases hr

/-- **An assignment** of a value of the family. -/
theorem All.assign (h : s.All V) (n : Name) {v : Value} (hv : V v) : (s.assign n v).All V := by
  unfold Scopes.assign
  split
  · next r hr => exact all_reassign? hv h hr
  · split
    · exact h.setGlobal n hv
    · next inner outer hlocals =>
      have hblocks := h.locals
      rw [hlocals, List.forall_mem_cons] at hblocks
      exact ⟨List.forall_mem_cons.2 ⟨hblocks.1.insert n hv, hblocks.2⟩, h.global⟩

end Scopes

/-- The variables of a round of an `@each` loop hold parts of the element. -/
theorem Render.all_eachFrame (hV : Value.Closed V) (names : List Name) {element : Value}
    (h : V element) : (eachFrame names element).All V := by
  unfold eachFrame
  split
  · exact Table.all_empty.insert _ h
  · refine Table.all_empty.insertAll fun e he => ?_
    obtain ⟨⟨n, i⟩, -, rfl⟩ := List.mem_map.1 he
    change V ((element.elements[i]?).getD .null)
    cases hpart : element.elements[i]? with
    | none => exact hV.scalar rfl
    | some part => exact hV.elements h part (List.mem_of_getElem? hpart)

/-! ### Stylesheets and modules -/

/-- The code of a function has no literals but scalars. -/
structure UserFunction.Plain (f : UserFunction) : Prop where
  parameters : ∀ p ∈ f.parameters, p.Plain
  body : ∀ s ∈ f.body, s.Plain

/-- **What a stylesheet holds:** values of a family, and functions without compound literals. -/
structure Sheet.Holds (V : Value → Prop) (s : Sheet) : Prop where
  scopes : s.scopes.All V
  functions : s.functions.All UserFunction.Plain

/-- **What a module holds.** -/
structure Module.Holds (V : Value → Prop) (m : Module) : Prop where
  bindings : m.bindings.All V
  functions : m.functions.All UserFunction.Plain

theorem Module.Holds.imp {m : Module} (h : m.Holds V) (hVW : ∀ v, V v → W v) : m.Holds W :=
  ⟨h.bindings.imp hVW, h.functions⟩

namespace Sheet

variable {s : Sheet}

theorem Holds.imp (h : s.Holds V) (hVW : ∀ v, V v → W v) : s.Holds W :=
  ⟨h.scopes.imp hVW, h.functions⟩

theorem holds_start {bindings : Bindings} (h : bindings.All V) (path : Option Path) :
    (start bindings path).Holds V := ⟨⟨nofun, h⟩, Table.all_empty⟩

theorem holds_ofModule {m : Module} (h : m.Holds V) (p : Path) : (ofModule m p).Holds V :=
  ⟨⟨nofun, h.bindings⟩, h.functions⟩

theorem Holds.toModule (h : s.Holds V) : s.toModule.Holds V := ⟨h.scopes.global, h.functions⟩

theorem Holds.merge (h : s.Holds V) {m : Module} (hm : m.Holds V) (front : Name) :
    (s.merge m front).Holds V where
  scopes := by
    refine ⟨h.scopes.locals, Table.All.insertAll h.scopes.global fun e he => ?_⟩
    obtain ⟨x, hx, rfl⟩ := List.mem_map.1 he
    exact hm.bindings x hx
  functions := by
    refine Table.All.insertAll h.functions fun e he => ?_
    obtain ⟨x, hx, rfl⟩ := List.mem_map.1 he
    exact hm.functions x hx

end Sheet
end Stylesheet
