import Stylesheet.Render.State

/-!
# The members of modules

A stylesheet holds every variable and every function once, whatever is set in it. So a member that
it takes from a module is found there under its name behind the front.

* `Sheet.Distinct`, `Module.Distinct`: every member is there once.
* `Module.Reexports`: a module has all members of another one behind a front.
* `Sheet.reexports_merge`: what is merged is re-exported.
-/

namespace Stylesheet

/-! ### Members that are there once -/

/-- Every variable of the stylesheet and every function is there once. -/
structure Sheet.Distinct (s : Sheet) : Prop where
  bindings : s.scopes.global.Distinct
  functions : s.functions.Distinct

/-- Every member of the module is there once. -/
structure Module.Distinct (m : Module) : Prop where
  bindings : m.bindings.Distinct
  functions : m.functions.Distinct

/-- An assignment sets a variable of the stylesheet, or none of them. -/
theorem Scopes.distinct_assign {s : Scopes} (h : s.global.Distinct) (n : Name) (v : Value) :
    (s.assign n v).global.Distinct := by
  have key (locals : List Scope) :
      ∀ r, reassign? n v s.global locals = some r → r.global.Distinct := by
    induction locals with
    | nil =>
      intro r hr
      unfold reassign? at hr
      split at hr
      · cases hr
        exact h.insert n v
      · cases hr
    | cons b bs ih =>
      intro r hr
      unfold reassign? at hr
      split at hr
      · cases hr
        exact h
      · split at hr
        · obtain ⟨r', hr', rfl⟩ := Option.map_eq_some_iff.1 hr
          exact ih r' hr'
        · cases hr
  unfold assign
  split
  · next r hr => exact key s.locals r hr
  · split
    · exact h.insert n v
    · exact h

namespace Sheet

variable {s : Sheet}

theorem distinct_start {bindings : Bindings} (h : bindings.Distinct) (path : Option Path) :
    (start bindings path).Distinct := ⟨h, Table.distinct_empty⟩

theorem Distinct.merge (h : s.Distinct) (m : Module) (front : Name) : (s.merge m front).Distinct :=
  ⟨h.bindings.insertAll _, h.functions.insertAll _⟩

theorem Distinct.toModule (h : s.Distinct) : s.toModule.Distinct := ⟨h.bindings, h.functions⟩

end Sheet

/-! ### Members behind a front -/

/-- **A module re-exports another one** if it has the same members under their names behind a
front. -/
structure Module.Reexports (m : Module) (front : Name) (m' : Module) : Prop where
  bindings : ∀ n v, m'.bindings.find? n = some v → m.bindings.find? (front ++ n) = some v
  functions : ∀ n f, m'.functions.find? n = some f → m.functions.find? (front ++ n) = some f

theorem Module.Reexports.trans {m m' m'' : Module} {front front' : Name}
    (h : m.Reexports front m') (h' : m'.Reexports front' m'') :
    m.Reexports (front ++ front') m'' where
  bindings n v hn := by
    rw [Name.append_assoc]
    exact h.bindings _ v (h'.bindings n v hn)
  functions n f hn := by
    rw [Name.append_assoc]
    exact h.functions _ f (h'.functions n f hn)

/-- Members that are set behind a front are found there. -/
theorem Table.find?_front {α : Type} (t : Table Name α) {t' : Table Name α} (h : t'.Distinct)
    (front : Name) {n : Name} {a : α} (hn : t'.find? n = some a) :
    (t.insertAll (t'.entries.map fun (n, a) => (front ++ n, a))).find? (front ++ n) = some a := by
  have hkeys : ((t'.entries.map fun (n, a) => (front ++ n, a)).map (·.1)).Nodup := by
    rw [List.map_map]
    have hmap : List.map ((·.1) ∘ fun (n, a) => (front ++ n, a)) t'.entries =
        t'.keys.map (front ++ ·) := by
      unfold keys
      rw [List.map_map]
      rfl
    rw [hmap]
    exact List.Pairwise.map _ (fun _ _ hne heq => hne (Name.append_left_cancel heq)) h
  exact t.find?_insertAll hkeys (List.mem_map_of_mem (mem_of_find? hn))

/-- **What is merged is re-exported.** -/
theorem Sheet.reexports_merge (s : Sheet) {m : Module} (hm : m.Distinct) (front : Name) :
    (s.merge m front).toModule.Reexports front m :=
  ⟨fun _ _ => Table.find?_front _ hm.bindings front,
    fun _ _ => Table.find?_front _ hm.functions front⟩

end Stylesheet
