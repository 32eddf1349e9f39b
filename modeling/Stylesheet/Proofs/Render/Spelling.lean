import Stylesheet.Proofs.Render.Forwarding
import Stylesheet.Proofs.Render.JournaledFiles
import Stylesheet.Proofs.Rule.Spelling

/-!
# Names in a rendering

Variables, functions and namespaces are kept under names, in which a dash stands for an underscore.
Whatever asks for one by a spelling of its name gets, or sets, the same one for every spelling. Only
errors show how a name is spelled.

* `Spelling.ErrorsAlike`: errors that differ in the spelling of names.
* `Spelling.SameBindings`: what two spellings of a name have in common.
* `Spelling.spellings_agree`: they have it all in common, but for the fronts that rules read.
-/

namespace Stylesheet

open Render

namespace Spelling

variable {σ : Type}

/-- **Errors that differ in how names are spelled.** -/
inductive ErrorsAlike : RenderError → RenderError → Prop
  | undefinedVariable {n n' : String} (h : SameName n n') :
      ErrorsAlike (.undefinedVariable n) (.undefinedVariable n')
  | noNamespace {n n' : String} (h : SameName n n') :
      ErrorsAlike (.fault (.noNamespace n)) (.fault (.noNamespace n'))
  | call {n n' : String} (h : SameName n n') (reason : CallFault) :
      ErrorsAlike (.call n reason) (.call n' reason)
  | missingArgument (function : String) {n n' : String} (h : SameName n n') :
      ErrorsAlike (.call function (.missingArgument n)) (.call function (.missingArgument n'))

/-- **What two spellings of a name have in common:** all that they lead to. -/
structure SameBindings [Log.Sink σ] (h : Host σ) (limits : Limits) (n n' : String) : Prop where
  /-- A variable that is in reach. -/
  valueOf : StepsUpTo (σ := σ) ErrorsAlike (Eval.valueOf n) (Eval.valueOf n')
  /-- A declaration, and the test of one with a default. -/
  declare : ∀ (eval : Expr → Render σ Value) value isDefault isGlobal,
    Render.declare eval n value isDefault isGlobal =
      Render.declare eval n' value isDefault isGlobal
  /-- The functions that ask for variables. -/
  existence : ∀ function function' v v' (s : State σ), SameName function function' →
    v.plainText = n → v'.plainText = n' →
    (Eval.existence? s.sheet.scopes (Name.ofString function).text).isSome →
    (Eval.library function [v]).run s = (Eval.library function' [v']).run s
  /-- A function of a stylesheet that is declared. -/
  declareFunction : ∀ parameters body,
    Render.declareFunction (σ := σ) ⟨n, parameters⟩ body =
      Render.declareFunction ⟨n', parameters⟩ body
  /-- A call of a function of the host or of a stylesheet. -/
  call : ∀ depth printed args s,
    ((h.functions.function? n).isSome ∨ (s.sheet.functions.find? (.ofString n)).isSome) →
    UpTo ErrorsAlike ((Eval.call h (callAt h limits depth) n printed args).run s)
      ((Eval.call h (callAt h limits depth) n' printed args).run s)
  /-- A function of the host that is registered, and one that is looked up. -/
  register : ∀ (r : Registry σ) f, r.register n f = r.register n' f
  function? : ∀ r : Registry σ, r.function? n = r.function? n'
  /-- A parameter to which an argument goes, be it by its keyword or not. -/
  bind : ∀ default function count before value rest after args,
    StepsUpTo (σ := σ) ErrorsAlike
      (Eval.bind default function count (before ++ ⟨n, value, rest⟩ :: after) args)
      (Eval.bind default function count (before ++ ⟨n', value, rest⟩ :: after) args)
  /-- A namespace, and the rules that make one or put a front before the names of members. -/
  namespaceOf : StepsUpTo (σ := σ) ErrorsAlike (Eval.namespaceOf n) (Eval.namespaceOf n')
  useNamed : ∀ eval (loader : Loader σ) (header : LoadHeader),
    use eval loader { header with as := .named n } = use eval loader { header with as := .named n' }
  useFront : ∀ eval (loader : Loader σ) (header : LoadHeader),
    use eval loader { header with as := .withFront n } =
      use eval loader { header with as := .withFront n' }
  forwardFront : ∀ eval (loader : Loader σ) (header : LoadHeader),
    forward eval loader { header with as := .withFront n } =
      forward eval loader { header with as := .withFront n' }
  /-- A member under a namespace. -/
  memberValue : ∀ space space', SameName space space' →
    StepsUpTo (σ := σ) ErrorsAlike (Eval.memberValue space n) (Eval.memberValue space' n')
  memberCall : ∀ depth space space' args, SameName space space' →
    StepsUpTo ErrorsAlike (Eval.memberCall (callAt h limits depth) space n args)
      (Eval.memberCall (callAt h limits depth) space' n' args)

section

variable {n n' : String} (hn : SameName n n')
include hn

theorem valueOf_alike : StepsUpTo (σ := σ) ErrorsAlike (Eval.valueOf n) (Eval.valueOf n') := by
  unfold Eval.valueOf
  refine .after _ fun sheet => ?_
  dsimp only
  rw [hn]
  cases sheet.scopes.find? (.ofString n') with
  | some v => exact .refl _
  | none =>
    dsimp only
    cases sheet.namespaces.flat.findSome? (·.constant? (Name.ofString n').text) with
    | some v => exact .refl _
    | none => exact .fail (.undefinedVariable hn)

theorem namespaceOf_alike :
    StepsUpTo (σ := σ) ErrorsAlike (Eval.namespaceOf n) (Eval.namespaceOf n') := by
  unfold Eval.namespaceOf
  refine .after _ fun sheet => ?_
  rw [hn]
  cases sheet.namespaces.named.find? (.ofString n') with
  | some space => exact .refl _
  | none => exact .fail (.noNamespace hn)

theorem sameName_qualified {space space' : String} (hspace : SameName space space') :
    SameName (Eval.qualified space n) (Eval.qualified space' n') := (hspace.append rfl).append hn

theorem memberValue_alike {space space' : String} (hspace : SameName space space') :
    StepsUpTo (σ := σ) ErrorsAlike (Eval.memberValue space n) (Eval.memberValue space' n') := by
  have hfull := sameName_qualified hn hspace
  unfold Eval.memberValue
  dsimp only
  rw [hn]
  refine .seq (namespaceOf_alike hspace) fun space => ?_
  cases space with
  | library l =>
    refine .after _ fun value => ?_
    cases value with
    | some v => exact .refl _
    | none => exact .fail (.undefinedVariable hfull)
  | module p =>
    refine .after _ fun m => .after _ fun value => ?_
    cases value with
    | some v => exact .refl _
    | none => exact .fail (.undefinedVariable hfull)

theorem callAt_alike [Log.Sink σ] (h : Host σ) (limits : Limits) (depth : Nat) (f : UserFunction)
    (args : Arguments) :
    StepsUpTo ErrorsAlike (callAt h limits depth n f args) (callAt h limits depth n' f args) := by
  intro s
  refine (renamed_iff.1 (callAt_renamed h limits f args n n' depth s)).mono ?_
  rintro e e' ⟨reason, rfl, rfl⟩
  exact .call hn reason

theorem positional_alike (args : Arguments) :
    StepsUpTo (σ := σ) ErrorsAlike (Eval.positional n args) (Eval.positional n' args) := by
  unfold Eval.positional
  cases args.named with
  | nil => exact .refl _
  | cons k named => exact .fail (.call hn _)

theorem memberCall_alike [Log.Sink σ] (h : Host σ) (limits : Limits) (depth : Nat)
    {space space' : String} (hspace : SameName space space') (args : Render σ Arguments) :
    StepsUpTo ErrorsAlike (Eval.memberCall (callAt h limits depth) space n args)
      (Eval.memberCall (callAt h limits depth) space' n' args) := by
  have hfull := sameName_qualified hn hspace
  unfold Eval.memberCall
  dsimp only
  rw [hn]
  refine .seq (namespaceOf_alike hspace) fun space => ?_
  cases space with
  | library l =>
    refine .after _ fun as => .seq (positional_alike hfull as) fun vs => ?_
    cases l.call? (Name.ofString n').text vs with
    | some result => exact .refl _
    | none => exact .fail (.call hfull _)
  | module p =>
    refine .after _ fun m => ?_
    cases m.bind (·.functions.find? (.ofString n')) with
    | some f => exact .after _ fun as => callAt_alike hfull h limits depth f as
    | none => exact .fail (.call hfull _)

/-- A call of a function that the host has, or the stylesheet. -/
theorem call_alike [Log.Sink σ] (h : Host σ) (limits : Limits) (depth : Nat) (printed : String)
    (args : Render σ Arguments) (s : State σ)
    (hknown : (h.functions.function? n).isSome ∨ (s.sheet.functions.find? (.ofString n)).isSome) :
    UpTo ErrorsAlike ((Eval.call h (callAt h limits depth) n printed args).run s)
      ((Eval.call h (callAt h limits depth) n' printed args).run s) := by
  have hfunction : h.functions.function? n = h.functions.function? n' := by
    unfold Registry.function?
    rw [hn]
  rw [hfunction, hn] at hknown
  unfold Eval.call
  rw [hfunction, hn]
  cases hf : h.functions.function? n' with
  | some f =>
    refine StepsUpTo.after _ (fun as => .seq (positional_alike hn as) fun vs =>
      .after _ fun r => ?_) s
    cases r with
    | ok v => exact .refl _
    | error message => exact .fail (.call hn _)
  | none =>
    rw [hf] at hknown
    obtain ⟨f, hf⟩ := Option.isSome_iff_exists.1 (hknown.resolve_left Bool.false_ne_true)
    rw [run_bind, run_bind, run_sheet]
    dsimp only
    rw [hf]
    exact StepsUpTo.after _ (fun as => callAt_alike hn h limits depth f as) s

/-- **A parameter** takes the same argument, and only its error tells how it is spelled. -/
theorem bind_alike (default : Expr → Render σ Value) (function : String) (count : Nat)
    (before : List Parameter) (value : Option Expr) (rest : Bool) (after : List Parameter)
    (args : Arguments) :
    StepsUpTo ErrorsAlike
      (Eval.bind default function count (before ++ ⟨n, value, rest⟩ :: after) args)
      (Eval.bind default function count (before ++ ⟨n', value, rest⟩ :: after) args) := by
  induction before generalizing args with
  | nil =>
    rw [List.nil_append, List.nil_append, Eval.bind, Eval.bind]
    dsimp only
    rw [hn]
    split
    · exact .refl _
    · cases args.positional with
      | cons v vs => exact .refl _
      | nil =>
        dsimp only
        cases Eval.takeNamed (.ofString n') args.named with
        | some vn => exact .refl _
        | none =>
          cases value with
          | some e => exact .refl _
          | none => exact .fail (.missingArgument function hn)
  | cons p before ih =>
    rw [List.cons_append, List.cons_append, Eval.bind, Eval.bind]
    split
    · exact .after _ fun _ => ih _
    · cases args.positional with
      | cons v vs => exact .after _ fun _ => ih _
      | nil =>
        cases Eval.takeNamed (.ofString p.name) args.named with
        | some vn => exact .after _ fun _ => ih _
        | none =>
          cases p.default with
          | some e => exact .after _ fun _ => .after _ fun _ => ih _
          | none => exact .refl _

/-- A function that asks for variables gets the same answer for every spelling. -/
theorem library_existence {function function' : String} {v v' : Value} {s : State σ}
    (hfunction : SameName function function') (hv : v.plainText = n) (hv' : v'.plainText = n')
    (hf : (Eval.existence? s.sheet.scopes (Name.ofString function).text).isSome) :
    (Eval.library function [v]).run s = (Eval.library function' [v']).run s := by
  obtain ⟨exists?, hexists⟩ := Option.isSome_iff_exists.1 hf
  have hrun (f : String) (hf : SameName function f) (w : Value) :
      (Eval.library f [w]).run s = (.ok (.bool (exists? (.ofString w.plainText))), s) := by
    unfold Eval.library
    rw [← hf, run_bind, run_sheet]
    dsimp only
    rw [hexists]
    rfl
  rw [hrun function rfl, hrun function' hfunction, hv, hv', hn]

/-- **Two spellings of a name** lead to the same. -/
theorem sameBindings [Log.Sink σ] (h : Host σ) (limits : Limits) : SameBindings h limits n n' where
  valueOf := valueOf_alike hn
  declare _ _ _ _ := by
    unfold Render.declare
    rw [hn]
  existence _ _ _ _ _ hfunction hv hv' hf := library_existence hn hfunction hv hv' hf
  declareFunction _ _ := by
    unfold Render.declareFunction
    rw [hn]
  call depth printed args s hknown := call_alike hn h limits depth printed args s hknown
  register _ _ := by
    unfold Registry.register
    rw [hn]
  function? _ := by
    unfold Registry.function?
    rw [hn]
  bind default function count before value rest after args :=
    bind_alike hn default function count before value rest after args
  namespaceOf := namespaceOf_alike hn
  useNamed _ _ _ := by
    simp only [use, useLibrary, LoadHeader.namespace?, LoadHeader.libraryName?, configure, hn]
  useFront _ _ _ := by
    simp only [use, useLibrary, LoadHeader.namespace?, LoadHeader.libraryName?, LoadHeader.front,
      configure, hn]
  forwardFront _ _ _ := by
    simp only [forward, LoadHeader.libraryName?, LoadHeader.front, configure, hn]
  memberValue _ _ hspace := memberValue_alike hn hspace
  memberCall depth _ _ args hspace := memberCall_alike hn h limits depth hspace args

end

/-! ### All spellings -/

/-- No name has an underscore. -/
def Dashed (ns : List Name) : Prop := ∀ n ∈ ns, '_' ∉ n.text.toList

theorem dashed (ns : List Name) : Dashed ns := fun n _ hmem => n.dashed '_' hmem rfl

/-- The names under which a stylesheet keeps its variables, functions and namespaces. -/
def sheetNames (s : Sheet) : List Name :=
  s.scopes.locals.flatMap (·.bindings.keys) ++ s.scopes.global.keys ++ s.functions.keys ++
    s.namespaces.named.keys

/-- The names under which a module keeps its own. -/
def moduleNames (m : Module) : List Name :=
  m.bindings.keys ++ m.functions.keys ++ m.namespaces.named.keys

/-- **A dash and an underscore are one character in names:** no name has an underscore under which
anything is kept in a state that a rendering passes, registered with the host, passed as a keyword
or configured. Two spellings of a name read the same in rules and lead to the same in every state,
but for fronts of members: they read the same only if both end with a dash, or none. -/
theorem spellings_agree [Log.Sink σ] (limits : Limits) (h : Host σ) (source : String) (g : σ) :
    (∃ es, Journal.render (Journal.ample limits) limits h source ⟨g, []⟩ =
        ((render limits h source g).1, ⟨(render limits h source g).2, es⟩) ∧
      ∀ sheet modules, Entry.passed sheet modules ∈ es →
        Dashed (sheetNames sheet) ∧ modules.All fun m => Dashed (moduleNames m)) ∧
    Dashed h.functions.keys ∧ (∀ args : Arguments, Dashed (args.named.map (·.1))) ∧
    (∀ configuration : Bindings, Dashed configuration.keys) ∧
    ∀ n n', SameName n n' → Rule.ReadAlike n n' ∧ SameBindings h limits n n' ∧
      (Rule.SameFront n n' ↔ Rule.endsWithDash n = Rule.endsWithDash n') := by
  refine ⟨?_, dashed _, fun _ => dashed _, fun _ => dashed _, fun n n' hn => ?_⟩
  · obtain ⟨es, hrun, -⟩ := Journal.render_sound Value.closed_true limits h source g 0
    exact ⟨es, hrun, fun _ _ _ => ⟨dashed _, fun _ _ => dashed _⟩⟩
  · exact ⟨Rule.readAlike hn, sameBindings hn h limits, Rule.sameFront_iff hn⟩

/-- Files that put a front before the members of another one, which they spell in two ways. -/
def frontFiles : Files := .ofList
  [("c.scss", "$a: 1;".toUTF8), ("d.scss", "@forward \"c\" as brand-*;".toUTF8),
    ("u.scss", "@forward \"c\" as brand_*;".toUTF8)]

/-- **A front with an underscore** at its end is refused, one with a dash is not, though they are
two spellings of one name. -/
theorem spellings_counterexample :
    SameName "brand-" "brand_" ∧ ¬ Rule.SameFront "brand-" "brand_" ∧
    Import.succeeds (Import.renderFiles frontFiles "@use \"d\";\n$x: d.$brand-a;") = true ∧
    Forwarding.errorOf (Import.renderFiles frontFiles "@use \"u\";\n$x: u.$brand-a;") =
      some "Unexpected \"*\" in @forward rule." := by
  have hn : SameName "brand-" "brand_" := by decide
  refine ⟨hn, fun h => ?_, ?_, ?_⟩
  · exact absurd ((Rule.sameFront_iff hn).1 h) (by decide)
  · decide +kernel
  · decide +kernel

end Spelling
end Stylesheet
