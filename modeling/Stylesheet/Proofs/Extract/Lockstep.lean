import Stylesheet.Proofs.Extract.Assigned
import Stylesheet.Proofs.Extract.Mirror

/-!
# Declarations in lockstep

At a declaration the rendering assigns the value of the list, and the extraction calls the export
function with the elements of the list and assigns what it gives back. Both assign the same, and
that is exported, unless the declaration is misread.

* `Extraction.declaration_step`: one declaration.
* `Extraction.lockstep`: all statements of a source.
-/

namespace Stylesheet

open Render Export

namespace Extraction

/-! ### Elements -/

theorem calls_elements {its : List Item} (h : Expr.Finished its) {m : Name}
    (hm : m ∈ Expr.callsOfAll (Expr.commaElements its).1) : m ∈ (Expr.expression its).calls := by
  rcases Expr.expression_of_finished h with ⟨e, he, heq⟩ | ⟨-, heq⟩
  · rw [he, Expr.callsOfAll, Expr.callsOfAll, List.append_nil] at hm
    rw [heq]
    exact hm
  · rw [heq, Expr.calls]
    exact hm

/-- A single value is never exported as the list of it. -/
theorem ofValue_ne_list (v : Value) : Plain.ofValue v ≠ Plain.ofValue (.list [v] .comma) := by
  intro h
  have hsize := congrArg sizeOf h
  simp only [Plain.ofValue, Plain.ofValues, Plain.list.sizeOf_spec, List.cons.sizeOf_spec,
    List.nil.sizeOf_spec] at hsize
  omega

/-- The three ways in which a list of values comes back from the export function. -/
inductive Returned (comma : Bool) : List Value → Prop
  /-- There is nothing to export. -/
  | blank : Returned comma []
  /-- A single element comes back, without the comma behind it. -/
  | single (v : Value) : Returned comma [v]
  /-- Several elements come back as a list. -/
  | several (v w : Value) (vs : List Value) (h : comma = true) : Returned comma (v :: w :: vs)

theorem returned {its : List Item} {vs : List Value}
    (h : vs.length = (Expr.commaElements its).1.length) :
    Returned (Expr.commaElements its).2.1 vs := by
  have hcomma := (Expr.comma_of_elements its).2
  rcases vs with _ | ⟨v, _ | ⟨w, vs⟩⟩
  · exact .blank
  · exact .single v
  · refine .several v w vs (hcomma ?_)
    rw [← h, List.length_cons, List.length_cons]
    omega

theorem misread_iff {n : Node} {vs : List Value}
    (h : vs.length = (Expr.commaElements (Expr.itemsOf (valueNodes n))).1.length) :
    misread n = true ↔
      vs = [] ∨ vs.length = 1 ∧ (Expr.commaElements (Expr.itemsOf (valueNodes n))).2.1 = true := by
  unfold misread
  revert h
  rcases Expr.commaElements (Expr.itemsOf (valueNodes n)) with ⟨es, comma, rest⟩
  intro h
  replace h : vs.length = es.length := h
  rw [← List.length_eq_zero_iff, h]
  rcases es with _ | ⟨e, _ | ⟨e', es⟩⟩
  · simp
  · cases comma <;> simp
  · simp

/-- What the export function does. -/
theorem hook_eq {σ : Type} [Log.Sink σ] {name : String} {vs : List Value} {v : Value}
    (h : exportedValue? (.quoted name :: vs) = some (.quoted name, v)) (c : Collected σ) :
    hook (.quoted name :: vs) c =
      (.ok v, { c with exported := ⟨.string name, .ofValue v⟩ :: c.exported }) := by
  unfold hook
  rw [h]
  rfl

theorem hook_blank {σ : Type} [Log.Sink σ] (v : Value) (c : Collected σ) :
    ∃ message, hook [v] c = (.error message, c) := ⟨_, rfl⟩

/-! ### One declaration -/

section

variable {σ : Type} [Log.Sink σ] {entry : Path} {read : Path → Except ReadFault String}
  {resolve : Import.Resolver σ} {files : List Path} {Same : σ → σ → Prop} {function : String}
  {limits : Limits}

/-- The value of a wrapped declaration is what the export function gives for its elements. -/
theorem value_wrapped {its : List Item} (h : Expr.Finished its) (name printed : String) :
    Sight.value limits (host function entry read resolve)
        (.call function ((none, .literal (.quoted name)) :: Expr.arguments false its) printed) =
      (do
        let vs ← Expr.evalAll (Sight.host (host function entry read resolve))
          (Noted.callAt Sight.notes (Sight.host (host function entry read resolve)) limits
            limits.calls) (Expr.commaElements its).1
        hostValue function (← ofHost (Traced.lift (hook (.quoted name :: vs))))) := by
  have hfunction : (Sight.host (host function entry read resolve)).functions.function? function =
      some fun args => Traced.lift (hook args) := by
    have hfind := Traced.find?_host (ε := Sight) (host function entry read resolve) function
    rw [function?_host, if_pos rfl] at hfind
    exact hfind
  rw [Expr.arguments_eq its h]
  exact run_hostCall hfunction _ _

/-- A state of an extraction with one more variable exported. -/
def withExport (t : State (Collecting σ)) (x : Exported) : State (Collecting σ) :=
  { t with host := { t.host with inner := { t.host.inner with exported := x :: t.host.inner.exported } } }

omit [Log.Sink σ] in
theorem Agrees.export {exported : List Exported} {s : State (Plainly σ)} {t : State (Collecting σ)}
    (h : Agrees Same function exported s t) (x : Exported) :
    Agrees Same function (x :: exported) s (withExport t x) := by
  have hmatch := h.host
  exact ⟨h.sheet, h.modules, h.calls, h.kept, hmatch.inner, hmatch.found, hmatch.history,
    congrArg (x :: ·) hmatch.exported⟩

/-- The value of a wrapped declaration from the values of its elements. -/
theorem run_value_wrapped {its : List Item} (h : Expr.Finished its) (name printed : String)
    {t t₁ : State (Collecting σ)} {vs : List Value}
    (ht : (Expr.evalAll (Sight.host (host function entry read resolve))
      (Noted.callAt Sight.notes (Sight.host (host function entry read resolve)) limits
        limits.calls) (Expr.commaElements its).1).run t = (.ok vs, t₁)) {v : Value}
    {t' : State (Collecting σ)} :
    (Sight.value limits (host function entry read resolve)
      (.call function ((none, .literal (.quoted name)) :: Expr.arguments false its) printed)).run t =
        (.ok v, t') ↔
      exportedValue? (.quoted name :: vs) = some (.quoted name, v) ∧
        t' = withExport t₁ ⟨.string name, .ofValue v⟩ := by
  rw [value_wrapped h, run_bind, ht]
  have hlift {r : Except String Value} {c : Collected σ}
      (hr : hook (.quoted name :: vs) t₁.host.inner = (r, c)) :
      (ofHost (Traced.lift (hook (.quoted name :: vs)))).run t₁ =
        (.ok r, { t₁ with host := { t₁.host with inner := c } }) := by
    refine run_ofHost_eq_ok.2 ⟨_, ?_, rfl⟩
    unfold Traced.lift
    rw [hr]
  dsimp only
  cases vs with
  | nil =>
    -- the value is blank, so that the export function gets a name only and refuses it
    obtain ⟨message, hm⟩ := hook_blank (.quoted name) t₁.host.inner
    rw [run_bind, hlift hm]
    constructor
    · intro hv
      cases hv
    · rintro ⟨hv, -⟩
      cases hv
  | cons w vs =>
    obtain ⟨x, hx⟩ : ∃ x, exportedValue? (.quoted name :: w :: vs) = some (.quoted name, x) := by
      cases vs <;> exact ⟨_, rfl⟩
    rw [run_bind, hlift (hook_eq hx _), hx]
    constructor
    · intro hv
      cases hv
      exact ⟨rfl, rfl⟩
    · rintro ⟨hv, rfl⟩
      cases hv
      rfl

/-- **A wrapped declaration** that is not skipped succeeds if the export function gives a value for
its elements, which it assigns then. -/
theorem run_wrapped_eq_ok {n : Node} {name : String} (hn : Declares n name)
    (h : Expr.Finished (Expr.itemsOf (valueNodes n))) {t t₁ t₂ : State (Collecting σ)}
    {vs : List Value} (hlook : Sight.look.run t = (.ok (), t₁))
    (hkeeps : t₁.sheet.keeps name ((flags n).contains "default") = false)
    (ht : (Expr.evalAll (Sight.host (host function entry read resolve))
      (Noted.callAt Sight.notes (Sight.host (host function entry read resolve)) limits
        limits.calls) (Expr.commaElements (Expr.itemsOf (valueNodes n))).1).run t₁ = (.ok vs, t₂))
    (t' : State (Collecting σ)) :
    (Sight.entry limits (host function entry read resolve)
      [Stmt.ofDeclaration (readNode function n)]).run t = (.ok none, t') ↔
      ∃ v t₃, exportedValue? (.quoted name :: vs) = some (.quoted name, v) ∧
        (modifyScopes (·.declare ((flags n).contains "global") (.ofString name) v)).run
          (withExport t₂ ⟨.string name, .ofValue v⟩) = (.ok (), t₃) ∧
        Sight.look.run t₃ = (.ok (), t') := by
  rw [ofDeclaration_wrapped function hn, run_declaration_eq_ok]
  constructor
  · rintro ⟨t₀, t₃, hlook', hdeclare, hbehind⟩
    rw [hlook] at hlook'
    cases hlook'
    rcases run_declare_eq_ok.1 hdeclare with ⟨hk, -⟩ | ⟨-, v, t₄, hvalue, hassign⟩
    · rw [hkeeps] at hk
      cases hk
    · obtain ⟨hv, rfl⟩ := (run_value_wrapped h name _ ht).1 hvalue
      exact ⟨v, t₃, hv, hassign, hbehind⟩
  · rintro ⟨v, t₃, hv, hassign, hbehind⟩
    refine ⟨t₁, t₃, hlook, run_declare_eq_ok.2 (.inr ⟨hkeeps, v, _, ?_, hassign⟩), hbehind⟩
    exact (run_value_wrapped h name _ ht).2 ⟨hv, rfl⟩

/-! ### Divergence -/

/-- What is exported has left what should be, and does not come back to it. -/
def Diverges (expected exported : List Exported) : Prop :=
  ∃ xs, xs <:+ exported ∧ xs.length ≤ expected.length ∧ ¬ xs <:+ expected

theorem Diverges.ne {expected exported : List Exported} (h : Diverges expected exported) :
    exported ≠ expected := by
  obtain ⟨xs, hxs, -, hn⟩ := h
  rintro rfl
  exact hn hxs

theorem Diverges.grow {expected exported exported' : List Exported} (h : Diverges expected exported)
    (he : exported <:+ exported') (ys : List Exported) : Diverges (ys ++ expected) exported' := by
  obtain ⟨xs, hxs, hlength, hn⟩ := h
  refine ⟨xs, hxs.trans he, ?_, fun hys => hn ?_⟩
  · rw [List.length_append]
    omega
  · exact List.suffix_of_suffix_length_le hys (List.suffix_append _ _) hlength

/-- Something else is exported in place of a variable. -/
theorem diverges_cons {x y : Exported} (h : y ≠ x) (exported : List Exported) :
    Diverges (x :: exported) (y :: exported) := by
  refine ⟨y :: exported, List.suffix_rfl, Nat.le_refl _, fun hsuffix => h ?_⟩
  have heq := hsuffix.eq_of_length rfl
  exact (List.cons.inj heq).1

/-- What is exported behind what was exported before. -/
def exportedBehind (xs : List (Node × Value)) (exported : List Exported) : List Exported :=
  (xs.map exportOf).reverse ++ exported

theorem exportedBehind_append (xs ys : List (Node × Value)) (exported : List Exported) :
    exportedBehind (xs ++ ys) exported = exportedBehind ys (exportedBehind xs exported) := by
  simp [exportedBehind]

/-- **How wrapped statements end** when the rendering assigns values by some declarations. -/
inductive Ends (Same : σ → σ → Prop) (function : String) (exported : List Exported)
    (xs : List (Node × Value)) (s : State (Plainly σ))
    (act : Render (Collecting σ) (Option Value)) (t : State (Collecting σ)) : Prop
  /-- The same values are assigned, and they are exported. -/
  | same (hx : ∀ x ∈ xs, misread x.1 = false) {t' : State (Collecting σ)}
      (ht : act.run t = (.ok none, t'))
      (h : Agrees Same function (exportedBehind xs exported) s t')
  /-- If they succeed at all, something else is exported. -/
  | other (hx : ∃ x ∈ xs, misread x.1 = true)
      (ht : ∀ t', act.run t = (.ok none, t') →
        Diverges (exportedBehind xs exported) t'.host.inner.exported)

/-- Statements that go on behind others end as both do. -/
theorem Ends.append {exported : List Exported} {xs ys : List (Node × Value)}
    {s s' : State (Plainly σ)} {ss ss' : List Stmt} {t : State (Collecting σ)}
    (h : Ends Same function exported xs s
      (Sight.entry limits (host function entry read resolve) ss) t)
    (h' : ∀ t₁, Agrees Same function (exportedBehind xs exported) s t₁ →
      Ends Same function (exportedBehind xs exported) ys s'
        (Sight.entry limits (host function entry read resolve) ss') t₁) :
    Ends Same function exported (xs ++ ys) s'
      (Sight.entry limits (host function entry read resolve) (ss ++ ss')) t := by
  cases h with
  | same hx ht h =>
    cases h' _ h with
    | same hx' ht' h'' =>
      refine .same ?_ (run_entry_append_eq_ok.2 ⟨_, ht, ht'⟩) ?_
      · rw [List.forall_mem_append]
        exact ⟨hx, hx'⟩
      · rw [exportedBehind_append]
        exact h''
    | other hx' ht' =>
      obtain ⟨x, hx', hm⟩ := hx'
      refine .other ⟨x, List.mem_append_right _ hx', hm⟩ fun t' hrun => ?_
      obtain ⟨t₁, ht₁, hrun⟩ := run_entry_append_eq_ok.1 hrun
      rw [ht] at ht₁
      cases ht₁
      rw [exportedBehind_append]
      exact ht' t' hrun
  | other hx ht =>
    obtain ⟨x, hx, hm⟩ := hx
    refine .other ⟨x, List.mem_append_left _ hx, hm⟩ fun t' hrun => ?_
    -- what was exported in front is still there
    obtain ⟨t₁, ht₁, hrun⟩ := run_entry_append_eq_ok.1 hrun
    rw [exportedBehind_append]
    exact (ht t₁ ht₁).grow (exported_grows hrun) _

variable (h : Import.Blind Same resolve)
  (hfiles : ∀ p ∈ files, FileCallsOnly (· ≠ .ofString function) (plainHost entry read resolve) p)
include h hfiles

omit hfiles in
/-- A declaration that is evaluated ends as its value is read. -/
theorem ends_evaluated {n : Node} {name : String} (hn : Declares n name)
    (hfinished : Expr.Finished (Expr.itemsOf (valueNodes n))) {exported : List Exported}
    {s₃ s₂ s' : State (Plainly σ)} {t t₁ t₂ : State (Collecting σ)} {vs : List Value} {v : Value}
    (hlength : vs.length = (Expr.commaElements (Expr.itemsOf (valueNodes n))).1.length)
    (hv : v = gathered (Expr.commaElements (Expr.itemsOf (valueNodes n))).2.1 vs)
    (hassign : (modifyScopes (·.declare ((flags n).contains "global") (.ofString name) v)).run s₃ =
      (.ok (), s₂))
    (hlook : Sight.look.run s₂ = (.ok (), s')) (hb : Bound files s'.host)
    (ht₁ : Sight.look.run t = (.ok (), t₁))
    (hkeeps : t₁.sheet.keeps name ((flags n).contains "default") = false)
    (ht₂ : (Expr.evalAll (Sight.host (host function entry read resolve))
      (Noted.callAt Sight.notes (Sight.host (host function entry read resolve)) limits
        limits.calls) (Expr.commaElements (Expr.itemsOf (valueNodes n))).1).run t₁ = (.ok vs, t₂))
    (h₂ : Agrees Same function exported s₃ t₂) :
    Ends Same function exported [(n, v)] s'
      (Sight.entry limits (host function entry read resolve)
        [Stmt.ofDeclaration (readNode function n)]) t := by
  have hlooks : Mirrors Same function files Sight.look Sight.look := mirrors_look h
  have hassigns : Mirrors Same function files
      (modifyScopes (·.declare ((flags n).contains "global") (.ofString name) v)) _ :=
    mirrors_modifyScopes h _
  have hmisread := misread_iff hlength
  have hwrapped := run_wrapped_eq_ok hn hfinished ht₁ hkeeps ht₂
  have hexport : exportOf (n, v) = ⟨.string name, .ofValue v⟩ := by
    unfold exportOf
    rw [hn.bound]
    rfl
  -- the value comes back as it is
  have same (hx : misread n = false)
      (hw : exportedValue? (.quoted name :: vs) = some (.quoted name, v)) :
      Ends Same function exported [(n, v)] s'
        (Sight.entry limits (host function entry read resolve)
          [Stmt.ofDeclaration (readNode function n)]) t := by
    obtain ⟨t₃, ht₃, h₃⟩ := hassigns.runs (h₂.export ⟨.string name, .ofValue v⟩) hassign
      (hlooks.bounded hlook hb)
    obtain ⟨t', ht', h'⟩ := hlooks.runs h₃ hlook hb
    refine .same (List.forall_mem_singleton.2 hx) ((hwrapped t').2 ⟨v, t₃, hw, ht₃, ht'⟩) ?_
    rw [exportedBehind, List.map_singleton, hexport]
    exact h'
  cases returned hlength with
  | blank =>
    refine .other ⟨_, List.mem_singleton_self _, hmisread.2 (.inl rfl)⟩ fun t' ht' => ?_
    obtain ⟨w, t₃, hw, -⟩ := (hwrapped t').1 ht'
    cases hw
  | single w =>
    cases hcomma : (Expr.commaElements (Expr.itemsOf (valueNodes n))).2.1 with
    | false =>
      rw [hcomma] at hmisread hv
      refine same ?_ (by rw [hv]; rfl)
      rw [← Bool.not_eq_true, hmisread]
      simp
    | true =>
      rw [hcomma] at hmisread hv
      refine .other ⟨_, List.mem_singleton_self _, hmisread.2 (.inr ⟨rfl, rfl⟩)⟩ fun t' ht' => ?_
      obtain ⟨w', t₃, hw, ht₃, ht'⟩ := (hwrapped t').1 ht'
      cases hw
      cases ht₃
      cases ht'
      -- the element is exported in place of the list
      have hne : (⟨.string name, .ofValue w⟩ : Exported) ≠ exportOf (n, v) := by
        rw [hexport, hv]
        intro heq
        exact ofValue_ne_list w (congrArg Exported.value heq)
      show Diverges (exportOf (n, v) :: exported) (⟨.string name, .ofValue w⟩ :: t₂.host.inner.exported)
      rw [h₂.host.exported]
      exact diverges_cons hne exported
  | several w w' vs hcomma =>
    rw [hcomma] at hmisread hv
    refine same ?_ (by rw [hv]; rfl)
    rw [← Bool.not_eq_true, hmisread]
    simp

/-- **One declaration:** it is skipped on both sides, or it assigns a value on both sides. -/
theorem declaration_step {n : Node} {name : String} (hn : Declares n name)
    (hcalls : ∀ m ∈ (Stmt.ofDeclaration n).calls, m ≠ .ofString function)
    {exported : List Exported} {u : State (Import.Tracked σ)} {es : List Sight}
    {s' : State (Plainly σ)} {t : State (Collecting σ)}
    (hst : Agrees Same function exported (Traced.ofState u es) t)
    (hs : (Sight.entry limits (plainHost entry read resolve) [Stmt.ofDeclaration n]).run
      (Traced.ofState u es) = (.ok none, s')) (hb : Bound files s'.host) :
    Ends Same function exported
      ((assigns? limits (plainHost entry read resolve) u n).map (n, ·)).toList s'
      (Sight.entry limits (host function entry read resolve)
        [Stmt.ofDeclaration (readNode function n)]) t := by
  have hlooks : Mirrors Same function files Sight.look Sight.look := mirrors_look h
  rw [ofDeclaration_eq hn.bound] at hs hcalls
  obtain ⟨s₁, s₂, hlook, hdeclare, hlook'⟩ := run_declaration_eq_ok.1 hs
  have hb₂ := hlooks.bounded hlook' hb
  have hsheet : s₁.sheet = u.sheet := by
    cases hlook
    rfl
  have hassigns : assigns? limits (plainHost entry read resolve) u n =
      if u.sheet.keeps name ((flags n).contains "default") then none
      else ((Render.value (plainHost entry read resolve) limits
        (Expr.ofNodes (valueNodes n))).run u).1.toOption := by
    rw [assigns?, if_pos (is_declaration hn.bound), ofDeclaration_eq hn.bound]
  rcases run_declare_eq_ok.1 hdeclare with ⟨hkeeps, rfl⟩ | ⟨hkeeps, v, s₃, hvalue, hassign⟩
  · -- the default leaves the variable as it is
    rw [hsheet] at hkeeps
    rw [hassigns, if_pos hkeeps, ofDeclaration_wrapped function hn]
    obtain ⟨t₁, ht₁, h₁⟩ := hlooks.runs hst hlook hb₂
    obtain ⟨t₂, ht₂, h₂⟩ := hlooks.runs h₁ hlook' hb
    refine .same nofun (run_declaration_eq_ok.2
      ⟨t₁, t₁, ht₁, run_declare_eq_ok.2 (.inl ⟨?_, rfl⟩), ht₂⟩) h₂
    rw [h₁.sheet, hsheet]
    exact hkeeps
  · -- the value is gathered from those of its elements, which the extraction evaluates alike
    have hwrites : Mirrors Same function files
        (modifyScopes (·.declare ((flags n).contains "global") (.ofString name) v)) _ :=
      mirrors_modifyScopes h _
    have hb₃ := hwrites.bounded hassign hb₂
    obtain ⟨hfinished, vs, hvs, hv⟩ := run_expression_eq_ok hvalue
    have helements := mirrors_evalAll limits h hfiles fun m hm =>
      hcalls m (calls_elements hfinished hm)
    obtain ⟨t₁, ht₁, h₁⟩ := hlooks.runs hst hlook (helements.bounded hvs hb₃)
    obtain ⟨t₂, ht₂, h₂⟩ := helements.runs h₁ hvs hb₃
    have hkeeps' : t₁.sheet.keeps name ((flags n).contains "default") = false := by
      rw [h₁.sheet]
      exact hkeeps
    have hassigned : assigns? limits (plainHost entry read resolve) u n = some v := by
      obtain ⟨es₁, rfl⟩ : ∃ es₁, s₁ = Traced.ofState u es₁ := by
        cases hlook
        exact ⟨_, rfl⟩
      obtain ⟨u₃, es₃, hu, -⟩ := (Sight.forgets_value _ limits _).run_inner hvalue
      rw [hsheet] at hkeeps
      rw [hassigns, hkeeps, if_neg nofun, hu]
      rfl
    rw [hassigned]
    exact ends_evaluated h hn hfinished (evalAll_length hvs) hv hassign hlook' hb ht₁ hkeeps'
      ht₂ h₂

/-- **All statements in lockstep:** between declarations both run the same statements. -/
theorem lockstep {ns : List Node}
    (hns : ∀ n ∈ ns, ∀ name, boundName? n = some name → Declares n name)
    {front : List Node} (hfront : ∀ n ∈ front, boundName? n = none)
    (hcalls : ∀ m ∈ Stmt.callsOfAll (Stmt.ofNodes (front ++ ns)), m ≠ .ofString function)
    {exported : List Exported} {u : State (Import.Tracked σ)} {es : List Sight}
    {s' : State (Plainly σ)} {t : State (Collecting σ)}
    (hst : Agrees Same function exported (Traced.ofState u es) t)
    (hs : (Sight.entry limits (plainHost entry read resolve) (Stmt.ofNodes (front ++ ns))).run
      (Traced.ofState u es) = (.ok none, s')) (hb : Bound files s'.host) :
    Ends Same function exported
      (assignedBehind limits (plainHost entry read resolve) u front ns) s'
      (Sight.entry limits (host function entry read resolve)
        (Stmt.ofNodes ((front ++ ns).map (readNode function)))) t := by
  have hread {ns : List Node} (hns : ∀ n ∈ ns, boundName? n = none) :
      ns.map (readNode function) = ns := by
    refine (List.map_congr_left fun n hn => ?_).trans ns.map_id
    exact readNode_of_unbound function (hns n hn)
  induction ns generalizing front exported u es s' t with
  | nil =>
    rw [List.append_nil] at hs hcalls ⊢
    rw [hread hfront]
    obtain ⟨t', ht', h'⟩ := (mirrors_entry limits h hfiles hcalls).runs hst hs hb
    exact .same (List.forall_mem_nil _) ht' h'
  | cons n ns ih =>
    have hrest : ∀ m ∈ ns, ∀ name, boundName? m = some name → Declares m name :=
      fun m hm => hns m (List.mem_cons_of_mem _ hm)
    cases hname : boundName? n with
    | none =>
      -- it belongs to the statements between declarations
      have hnone : ∀ s, assigns? limits (plainHost entry read resolve) s n = none := by
        intro s
        unfold assigns?
        split
        · next hkind => rw [ofDeclaration_unbound hkind hname]
        · rfl
      have hfront' : ∀ m ∈ front ++ [n], boundName? m = none := by
        rw [List.forall_mem_append, List.forall_mem_singleton]
        exact ⟨hfront, hname⟩
      rw [List.append_cons] at hs hcalls ⊢
      rw [assignedBehind, hnone]
      exact ih hrest hfront' hcalls hst hs hb
    | some name =>
      have hn := hns n List.mem_cons_self name hname
      obtain ⟨cs, span, rfl⟩ := hn.isDeclaration
      -- the statements in front, the declaration, and those behind it
      rw [Stmt.ofNodes_declaration, List.append_cons] at hs
      rw [Stmt.ofNodes_declaration, Stmt.callsOfAll_append, Stmt.callsOfAll,
        List.forall_mem_append, List.forall_mem_append] at hcalls
      obtain ⟨hcalls₁, hcalls₂, hcalls₃⟩ := hcalls
      obtain ⟨s₂, hs₂, hs⟩ := run_entry_append_eq_ok.1 hs
      obtain ⟨s₁, hs₁, hs₂⟩ := run_entry_append_eq_ok.1 hs₂
      obtain ⟨u₁, es₁, hu₁, rfl⟩ := (Sight.forgets_entry _ limits _).run_inner hs₁
      obtain ⟨u₂, es₂, hu₂, rfl⟩ := (Sight.forgets_entry _ limits _).run_inner hs₂
      have hb₂ := (mirrors_entry limits h hfiles hcalls₃).bounded hs hb
      have hone : ∀ m ∈ Stmt.callsOfAll [Stmt.ofDeclaration (.sequence .declaration cs span)],
          m ≠ .ofString function := by
        rw [Stmt.callsOfAll, Stmt.callsOfAll, List.append_nil]
        exact hcalls₂
      have hb₁ := (mirrors_entry limits h hfiles hone).bounded hs₂ hb₂
      have hstate : stateBehind limits (plainHost entry read resolve) u front = u₁ := by
        rw [stateBehind, hu₁]
      have hcut : (Render.entry (plainHost entry read resolve) limits
          (Stmt.ofNodes (front ++ [.sequence .declaration cs span]))).run u = (.ok none, u₂) := by
        rw [Stmt.ofNodes_declaration]
        rw [← Noted.entry_none] at hu₁ hu₂ ⊢
        exact run_entry_append_eq_ok.2 ⟨u₁, hu₁, hu₂⟩
      obtain ⟨cs', span', hwrapped⟩ := readNode_declaration function cs span
      rw [assignedBehind, hstate, assignedBehind_cut hcut [] ns, List.map_append, List.map_cons,
        hread hfront, hwrapped, Stmt.ofNodes_declaration, ← hwrapped, List.append_cons]
      obtain ⟨t₁, ht₁, h₁⟩ := (mirrors_entry limits h hfiles hcalls₁).runs hst hs₁ hb₁
      have hnone : ∀ m ∈ ([] : List Node), boundName? m = none := List.forall_mem_nil _
      refine Ends.append ?_ fun t₂ h₂ => ih hrest hnone hcalls₃ h₂ hs hb
      have hfirst : Ends Same function exported [] (Traced.ofState u₁ es₁)
          (Sight.entry limits (host function entry read resolve) (Stmt.ofNodes front)) t :=
        .same (List.forall_mem_nil _) ht₁ h₁
      exact hfirst.append fun t₁ h₁ => declaration_step h hfiles hn hcalls₂ h₁ hs₂ hb₂

end

end Extraction
end Stylesheet
