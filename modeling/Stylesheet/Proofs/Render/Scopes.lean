import Stylesheet.Render.Scope

/-!
# What assignments change

An assignment in a block reaches that block, and from the body of a loop also the blocks around it
up to the first that is no loop. There it changes values only: names are bound in the innermost
block alone.

* `Scopes.Rebound`: a change of values in the reach of an enclosed loop.
* `Scopes.Assigned`: a change by assignments in the innermost block.
* `Scopes.Assigned.pop_block`, `Scopes.Assigned.pop_loop`: what is left of the change of a block or
  of the body of a loop when it is closed.
-/

namespace Stylesheet

theorem Table.contains_iff {κ α : Type} [BEq κ] [LawfulBEq κ] (t : Table κ α) (k : κ) :
    t.contains k = true ↔ k ∈ t.keys := by
  simp [Table.contains, Table.keys]

/-- Setting a key that is set already adds none. -/
theorem Table.keys_insert_of_contains {κ α : Type} [BEq κ] [LawfulBEq κ] {t : Table κ α} {k : κ}
    (a : α) (h : t.contains k = true) : (t.insert k a).keys = t.keys := by
  rw [Table.keys_insert, if_pos ((t.contains_iff k).1 h)]

attribute [ext] Scopes

namespace Scopes

/-- Which of the open blocks are bodies of loops, the innermost first. -/
def shape (s : Scopes) : List Bool := s.locals.map (·.control)

/-- **Values are changed,** and no name is bound or lost: in the bodies of loops that are open, and
in the first block around them that is no loop, which may be the stylesheet. -/
inductive Rebound : Scopes → Scopes → Prop
  | stylesheet {g g' : Bindings} (h : g'.keys = g.keys) : Rebound ⟨[], g⟩ ⟨[], g'⟩
  | block {b b' g : Bindings} {ss : List Scope} (h : b'.keys = b.keys) :
      Rebound ⟨⟨b, false⟩ :: ss, g⟩ ⟨⟨b', false⟩ :: ss, g⟩
  | loop {b b' g g' : Bindings} {ss ss' : List Scope} (h : b'.keys = b.keys)
      (outer : Rebound ⟨ss, g⟩ ⟨ss', g'⟩) : Rebound ⟨⟨b, true⟩ :: ss, g⟩ ⟨⟨b', true⟩ :: ss', g'⟩

/-- **Assignments in the innermost block:** it may get new names, and if it is the body of a loop,
values around it may change. -/
inductive Assigned : Scopes → Scopes → Prop
  | stylesheet {g g' : Bindings} : Assigned ⟨[], g⟩ ⟨[], g'⟩
  | block {b b' g : Bindings} {ss : List Scope} :
      Assigned ⟨⟨b, false⟩ :: ss, g⟩ ⟨⟨b', false⟩ :: ss, g⟩
  | loop {b b' g g' : Bindings} {ss ss' : List Scope} (outer : Rebound ⟨ss, g⟩ ⟨ss', g'⟩) :
      Assigned ⟨⟨b, true⟩ :: ss, g⟩ ⟨⟨b', true⟩ :: ss', g'⟩

variable {a b c : Scopes}

theorem Rebound.refl (a : Scopes) : Rebound a a := by
  obtain ⟨ss, g⟩ := a
  induction ss with
  | nil => exact .stylesheet rfl
  | cons s ss ih =>
    obtain ⟨b, _ | _⟩ := s
    · exact .block rfl
    · exact .loop rfl ih

theorem Rebound.trans (h : Rebound a b) (h' : Rebound b c) : Rebound a c := by
  induction h generalizing c with
  | stylesheet h =>
    cases h' with
    | stylesheet h' => exact .stylesheet (h'.trans h)
  | block h =>
    cases h' with
    | block h' => exact .block (h'.trans h)
  | loop h _ ih =>
    cases h' with
    | loop h' outer' => exact .loop (h'.trans h) (ih outer')

theorem Rebound.assigned (h : Rebound a b) : Assigned a b := by
  cases h with
  | stylesheet h => exact .stylesheet
  | block h => exact .block
  | loop h outer => exact .loop outer

theorem Assigned.refl (a : Scopes) : Assigned a a := (Rebound.refl a).assigned

theorem Assigned.trans (h : Assigned a b) (h' : Assigned b c) : Assigned a c := by
  cases h with
  | stylesheet => cases h' with | stylesheet => exact .stylesheet
  | block => cases h' with | block => exact .block
  | loop outer => cases h' with | loop outer' => exact .loop (outer.trans outer')

theorem Rebound.shape_eq (h : Rebound a b) : b.shape = a.shape := by
  induction h with
  | stylesheet h => rfl
  | block h => rfl
  | loop h outer ih => exact congrArg (true :: ·) ih

theorem Assigned.shape_eq (h : Assigned a b) : b.shape = a.shape := by
  cases h with
  | stylesheet => rfl
  | block => rfl
  | loop outer => exact congrArg (true :: ·) outer.shape_eq

/-! ### Assignments -/

/-- The variable that an assignment reaches gets another value. -/
theorem rebound_of_reassign {n : Name} {v : Value} {g : Bindings} {ss : List Scope} {r : Scopes}
    (h : reassign? n v g ss = some r) : Rebound ⟨ss, g⟩ r := by
  induction ss generalizing r with
  | nil =>
    unfold reassign? at h
    split at h
    · next hn =>
      cases h
      exact .stylesheet (Table.keys_insert_of_contains v hn)
    · cases h
  | cons s ss ih =>
    obtain ⟨b, control⟩ := s
    unfold reassign? at h
    split at h
    · next hn =>
      cases h
      have hkeys := Table.keys_insert_of_contains v hn
      cases control with
      | false => exact .block hkeys
      | true => exact .loop hkeys (.refl _)
    · split at h
      · next hcontrol =>
        obtain rfl : control = true := hcontrol
        obtain ⟨⟨ss', g'⟩, hr, rfl⟩ := Option.map_eq_some_iff.1 h
        exact .loop rfl (ih hr)
      · cases h

/-- **An assignment** changes the innermost block and values in its reach. -/
theorem assigned_assign (s : Scopes) (n : Name) (v : Value) : Assigned s (s.assign n v) := by
  obtain ⟨ss, g⟩ := s
  unfold assign
  split
  · next r h => exact (rebound_of_reassign h).assigned
  · cases ss with
    | nil => exact .stylesheet
    | cons s ss =>
      obtain ⟨b, _ | _⟩ := s
      · exact .block
      · exact .loop (.refl _)

theorem shape_setGlobal (s : Scopes) (n : Name) (v : Value) : (s.setGlobal n v).shape = s.shape :=
  rfl

/-! ### Closing a block -/

/-- Nothing of what assignments change in a block is left when it is closed. -/
theorem Assigned.pop_block {bindings : Bindings} (h : Assigned (a.push ⟨bindings, false⟩) b) :
    b.pop = a := by
  cases h with
  | block => rfl

theorem Assigned.global_of_block {bindings : Bindings} (h : Assigned (a.push ⟨bindings, false⟩) b) :
    b.global = a.global := by
  cases h with
  | block => rfl

/-- Values are what assignments in the body of a loop change around it. -/
theorem Assigned.pop_loop {bindings : Bindings} (h : Assigned (a.push ⟨bindings, true⟩) b) :
    Rebound a b.pop := by
  cases h with
  | loop outer => exact outer

theorem shape_pop {scope : Scope} (h : b.shape = (a.push scope).shape) : b.pop.shape = a.shape := by
  unfold shape pop push at *
  rw [List.map_tail, h]
  rfl

end Scopes
end Stylesheet
