import Stylesheet.Proofs.Render.Calls
import Stylesheet.Proofs.Render.Loading

/-!
# References to modules

A function refers to the module in which it is declared, and a namespace to a module or to a
built-in one. A function may be at hand while its module is still running; then it is called in the
stylesheet of that module. Once a module is loaded it stays so, and its references hold.

* `Loaded`: whether a module is loaded.
* `Sheet.Reaches`, `Module.Reaches`: every reference of a stylesheet or of a module holds.
* `Sheet.Reaches.merge`, `Module.reaches_keep`: they do behind what loads modules.
-/

namespace Stylesheet

/-- Whether the module of a path is loaded. -/
def Loaded (modules : Table Path Module) (p : Path) : Prop := ∃ m, modules.find? p = some m

/-- Modules that are loaded stay loaded. -/
def Grows (modules modules' : Table Path Module) : Prop := ∀ p, Loaded modules p → Loaded modules' p

section

variable {modules modules' modules'' : Table Path Module}

theorem Grows.refl (modules : Table Path Module) : Grows modules modules := fun _ h => h

theorem Grows.trans (h : Grows modules modules') (h' : Grows modules' modules'') :
    Grows modules modules'' := fun p hp => h' p (h p hp)

theorem loaded_insert (modules : Table Path Module) (p : Path) (m : Module) :
    Loaded (modules.insert p m) p := by
  refine ⟨m, ?_⟩
  rw [Table.find?_insert, beq_self_eq_true]
  rfl

theorem grows_insert (modules : Table Path Module) (p : Path) (m : Module) :
    Grows modules (modules.insert p m) := by
  rintro q ⟨k, hk⟩
  unfold Loaded
  rw [Table.find?_insert]
  cases p == q with
  | true => exact ⟨m, rfl⟩
  | false => exact ⟨k, hk⟩

/-! ### References -/

/-- **The home of a function** is the stylesheet that holds it or a module that is loaded. Only in
the entry, which has no path, a function has none. -/
def UserFunction.Reaches (modules : Table Path Module) (path : Option Path) (f : UserFunction) :
    Prop :=
  match f.home with
  | none => path = none
  | some p => path = some p ∨ Loaded modules p

/-- The module that a namespace stands for is loaded. -/
def Namespace.Reaches (modules : Table Path Module) : Namespace → Prop
  | .library _ => True
  | .module p => Loaded modules p

/-- Every module that a namespace stands for is loaded. -/
def Namespaces.Reaches (modules : Table Path Module) (n : Namespaces) : Prop :=
  n.named.All (Namespace.Reaches modules)

/-- **The references of a stylesheet** hold. -/
structure Sheet.Reaches (modules : Table Path Module) (s : Sheet) : Prop where
  functions : s.functions.All (UserFunction.Reaches modules s.path)
  namespaces : s.namespaces.Reaches modules

/-- **The references of a module** hold wherever its members are. -/
structure Module.Reaches (modules : Table Path Module) (m : Module) : Prop where
  functions : m.functions.All fun f => ∃ p, f.home = some p ∧ Loaded modules p
  namespaces : m.namespaces.Reaches modules

theorem Table.All.imp {κ α : Type} {P Q : α → Prop} {t : Table κ α} (h : t.All P)
    (hPQ : ∀ a, P a → Q a) : t.All Q := fun e he => hPQ e.2 (h e he)

theorem UserFunction.Reaches.grow {path : Option Path} {f : UserFunction}
    (h : f.Reaches modules path) (hg : Grows modules modules') : f.Reaches modules' path := by
  unfold UserFunction.Reaches at h ⊢
  cases hf : f.home with
  | none =>
    rw [hf] at h
    exact h
  | some p =>
    rw [hf] at h
    exact h.imp_right (hg p)

/-- A function of a module is within reach of every stylesheet. -/
theorem UserFunction.reaches_of_loaded {f : UserFunction}
    (h : ∃ p, f.home = some p ∧ Loaded modules p) (path : Option Path) :
    f.Reaches modules path := by
  obtain ⟨p, hp, hl⟩ := h
  unfold UserFunction.Reaches
  rw [hp]
  exact .inr hl

theorem Namespace.Reaches.grow {n : Namespace} (h : n.Reaches modules)
    (hg : Grows modules modules') : n.Reaches modules' := by
  cases n with
  | library l => trivial
  | module p => exact hg p h

theorem Namespaces.Reaches.grow {n : Namespaces} (h : n.Reaches modules)
    (hg : Grows modules modules') : n.Reaches modules' := Table.All.imp h fun _ hn => hn.grow hg

theorem Namespaces.reaches_none (modules : Table Path Module) : Namespaces.none.Reaches modules :=
  Table.all_empty

theorem Module.Reaches.grow {m : Module} (h : m.Reaches modules) (hg : Grows modules modules') :
    m.Reaches modules' where
  functions := h.functions.imp fun _ ⟨p, hp, hl⟩ => ⟨p, hp, hg p hl⟩
  namespaces := h.namespaces.grow hg

namespace Sheet

variable {s : Sheet}

theorem Reaches.grow (h : s.Reaches modules) (hg : Grows modules modules') : s.Reaches modules' where
  functions := h.functions.imp fun _ hf => hf.grow hg
  namespaces := h.namespaces.grow hg

theorem reaches_start (modules : Table Path Module) (bindings : Bindings) (path : Option Path) :
    (start bindings path).Reaches modules := ⟨Table.all_empty, Namespaces.reaches_none modules⟩

/-- **The stylesheet in which a function of a module runs** has its references. -/
theorem reaches_ofModule {m : Module} (h : m.Reaches modules) (p : Path) :
    (ofModule m p).Reaches modules where
  functions := h.functions.imp fun _ hf => UserFunction.reaches_of_loaded hf _
  namespaces := h.namespaces

/-- **Members of a module** keep their home where they are taken. -/
theorem Reaches.merge (h : s.Reaches modules) {m : Module} (hm : m.Reaches modules) (front : Name) :
    (s.merge m front).Reaches modules where
  functions := by
    refine Table.All.insertAll h.functions fun e he => ?_
    obtain ⟨x, hx, rfl⟩ := List.mem_map.1 he
    exact UserFunction.reaches_of_loaded (hm.functions x hx) s.path
  namespaces := h.namespaces

/-- A function that is declared belongs to the stylesheet that is running. -/
theorem Reaches.declareFunction (h : s.Reaches modules) (n : Name) (parameters : List Parameter)
    (body : List Stmt) :
    Reaches modules { s with functions := s.functions.insert n ⟨parameters, body, s.path⟩ } where
  functions := by
    refine h.functions.insert n ?_
    unfold UserFunction.Reaches
    cases hp : s.path with
    | none => rfl
    | some p => exact .inl rfl
  namespaces := h.namespaces

theorem Reaches.nameModule (h : s.Reaches modules) (n : Name) {space : Namespace}
    (hs : space.Reaches modules) :
    Reaches modules
      { s with namespaces := { s.namespaces with named := s.namespaces.named.insert n space } } where
  functions := h.functions
  namespaces := h.namespaces.insert n hs

end Sheet

/-! ### Modules that are loaded -/

/-- A module that is done has its references once it is loaded. -/
theorem Module.reaches_toModule {s : Sheet} {p : Path} (h : s.Reaches modules)
    (hp : s.path = some p) : s.toModule.Reaches (modules.insert p s.toModule) where
  functions := by
    refine Table.All.imp h.functions fun f hf => ?_
    unfold UserFunction.Reaches at hf
    cases hhome : f.home with
    | none =>
      rw [hhome, hp] at hf
      cases hf
    | some q =>
      rw [hhome, hp] at hf
      refine ⟨q, rfl, ?_⟩
      rcases hf with hq | hq
      · cases hq
        exact loaded_insert modules p _
      · exact grows_insert modules p _ q hq
  namespaces := Namespaces.Reaches.grow h.namespaces (grows_insert modules p _)

/-- **Loading a module** leaves no reference open. -/
theorem Module.reaches_keep {p : Path} {m : Module} (h : modules.All (Module.Reaches modules))
    (hm : m.Reaches (modules.insert p m)) :
    (modules.insert p m).All (Module.Reaches (modules.insert p m)) :=
  Table.All.insert (h.imp fun _ hk => hk.grow (grows_insert modules p m)) p hm

end
end Stylesheet
