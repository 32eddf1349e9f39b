import Stylesheet.Proofs.Render.Comparison
import Stylesheet.Proofs.Render.Noted

/-!
# Comparing statements

Statements that call only allowed functions compare with themselves, wherever they stand and
whatever they load, if what they load compares. Notes are taken of them on both sides, which
compare.

* `Comparison.Noting`: notes that go together.
* `Comparison.exec`, `Comparison.execAll`: a statement, and several in order. Outside functions
  they return nothing.
* `Comparison.callAt`: calls of functions of stylesheets.
-/

namespace Stylesheet
namespace Render

/-- What statements return: nothing, unless they stand in a function. -/
def Returns {σ : Type} (place : Place σ) (r : Option Value) : Prop :=
  place.isFunction = false → r = none

theorem returns_none {σ : Type} (place : Place σ) : Returns place none := fun _ => rfl

theorem returns_inner {σ : Type} {place : Place σ} {r : Option Value} (h : Returns place.inner r) :
    Returns place r := by
  cases place with
  | top loader => exact fun _ => h rfl
  | loop => exact h
  | function => exact h

namespace Comparison

variable {σ τ : Type} [Log.Sink σ] [Log.Sink τ] {C : Comparison σ τ} {α : Type}

/-! ### Arguments -/

/-- Binding arguments compares if the defaults of parameters do. -/
theorem bind {default : Expr → Render σ Value} {default' : Expr → Render τ Value}
    (hd : ∀ e : Expr, (∀ n ∈ e.calls, C.ok n) → C.Same (default e) (default' e)) (function : String)
    (count : Nat) (ps : List Parameter) (hps : ∀ n ∈ ps.flatMap Parameter.calls, C.ok n)
    (args : Arguments) :
    C.Same (Eval.bind default function count ps args)
      (Eval.bind default' function count ps args) := by
  induction ps generalizing args with
  | nil =>
    obtain ⟨positional, named⟩ := args
    rcases positional with _ | ⟨v, vs⟩
    · rcases named with _ | ⟨k, ks⟩
      · exact same_ret _
      · exact C.fail _
    · exact C.fail _
  | cons p ps ih =>
    rw [List.flatMap_cons, List.forall_mem_append] at hps
    have rest := ih hps.2
    unfold Eval.bind
    dsimp only
    split
    · exact (modifyScopes _).seq fun _ => rest _
    · cases args.positional with
      | cons v vs => exact (modifyScopes _).seq fun _ => rest _
      | nil =>
        cases Eval.takeNamed (Name.ofString p.name) args.named with
        | some vn => exact (modifyScopes _).seq fun _ => rest _
        | none =>
          cases hp : p.default with
          | none => exact C.fail _
          | some e =>
            have he : ∀ n ∈ e.calls, C.ok n := by
              intro n hn
              refine hps.1 n ?_
              rw [Parameter.calls, hp]
              exact hn
            exact (hd e he).seq fun v => (modifyScopes _).seq fun _ => rest _

/-! ### Modules -/

/-- What one statement reaches other files by goes together. -/
structure Loaders (C : Comparison σ τ) (loader : Loader σ) (loader' : Loader τ) : Prop where
  importFile : ∀ url, C.Same (loader.importFile url) (loader'.importFile url)
  moduleOf : ∀ url bindings, C.Rel (fun pm => pm.2.CallsOnly C.ok) (loader.moduleOf url bindings)
    (loader'.moduleOf url bindings)

theorem useLibrary (h : LoadHeader) (l : Builtin.Library) :
    C.Same (useLibrary h l) (useLibrary h l) := by
  unfold Render.useLibrary
  split
  · exact C.fail _
  · cases h.namespace? with
    | some n => exact C.modifySheet fun _ hs => hs
    | none => exact C.modifySheet fun _ hs => hs

section

variable {evaluate : Expr → Render σ Value} {evaluate' : Expr → Render τ Value}
  (he : ∀ e : Expr, (∀ n ∈ e.calls, C.ok n) → C.Same (evaluate e) (evaluate' e))
include he

variable {loader : Loader σ} {loader' : Loader τ} (hl : C.Loaders loader loader')
include hl

theorem use {h : LoadHeader} (hh : ∀ n ∈ h.calls, C.ok n) :
    C.Same (use evaluate loader h) (use evaluate' loader' h) := by
  unfold Render.use
  refine C.concord.andThen (C.concord.ensureFree _) fun _ => ?_
  cases h.libraryName? with
  | some library =>
    exact C.concord.andThen (C.concord.libraryOf h.url library) fun l => useLibrary h l
  | none =>
    refine C.seq (Concord.configure (C := C.concord) he hh) fun bindings _ =>
      C.seq (hl.moduleOf h.url bindings) ?_
    intro pm hpm
    dsimp only
    cases h.namespace? with
    | some n => exact C.modifySheet fun _ hs => hs
    | none => exact C.modifySheet fun s hs => hs.merge hpm h.front

theorem forward {h : LoadHeader} (hh : ∀ n ∈ h.calls, C.ok n) :
    C.Same (forward evaluate loader h) (forward evaluate' loader' h) := by
  unfold Render.forward
  cases h.libraryName? with
  | some library =>
    exact C.concord.andThen (C.concord.libraryOf h.url library) fun l =>
      C.modifySheet fun _ hs => hs
  | none =>
    refine C.seq (Concord.configure (C := C.concord) he hh) fun bindings _ =>
      C.seq (hl.moduleOf h.url bindings) ?_
    exact fun pm hpm => C.modifySheet fun s hs => hs.merge hpm h.front

end

/-! ### Statements -/

/-- Two places where the same statements stand. -/
inductive Places (C : Comparison σ τ) : Place σ → Place τ → Prop
  | top {loader : Loader σ} {loader' : Loader τ} (h : C.Loaders loader loader') :
      Places C (.top loader) (.top loader')
  | loop : Places C .loop .loop
  | function : Places C .function .function

namespace Places

variable {place : Place σ} {place' : Place τ}

theorem isFunction_eq (h : C.Places place place') : place'.isFunction = place.isFunction := by
  cases h <;> rfl

theorem inner (h : C.Places place place') : C.Places place.inner place'.inner := by
  cases h with
  | top _ => exact .loop
  | loop => exact .loop
  | function => exact .function

end Places

theorem silent {Q : Option Value → Prop} (hQ : Q none) {act : Render σ Unit} {act' : Render τ Unit}
    (h : C.Same act act') : C.Rel Q (Stmt.silent act) (Stmt.silent act') :=
  h.seq fun _ => C.ret hQ

theorem declare {evaluate : Expr → Render σ Value} {evaluate' : Expr → Render τ Value} {e : Expr}
    (h : C.Same (evaluate e) (evaluate' e)) (name : String) (isDefault isGlobal : Bool) :
    C.Same (declare evaluate name e isDefault isGlobal)
      (declare evaluate' name e isDefault isGlobal) := by
  unfold Render.declare
  refine C.sheet.same.seq fun sheet => ?_
  dsimp only
  split
  · exact same_ret _
  · refine h.seq fun v => ?_
    split
    · exact modifyScopes _
    · exact modifyScopes _

theorem declareFunction {s : Signature} {body : List Stmt}
    (hs : ∀ n ∈ s.parameters.flatMap Parameter.calls, C.ok n)
    (hb : ∀ n ∈ Stmt.callsOfAll body, C.ok n) :
    C.Same (declareFunction s body) (declareFunction s body) := by
  refine Same.seq (C.report _ _) fun _ => C.modifySheet fun sheet h => h.insert _ ?_
  exact List.forall_mem_append.2 ⟨hs, hb⟩

theorem reportValue (what : Report) (v : Value) :
    C.Same (reportValue what v) (reportValue what v) := by
  cases what with
  | error => exact C.fail _
  | warn => exact C.report _ _
  | debug => exact C.report _ _

theorem importAll {loader : Loader σ} {loader' : Loader τ} (h : C.Loaders loader loader')
    (urls : List String) :
    C.Same (urls.forM loader.importFile) (urls.forM loader'.importFile) := by
  induction urls with
  | nil => exact same_ret _
  | cons url urls ih => exact (h.importFile url).seq fun _ => ih

/-! ### Notes -/

/-- **Notes of statements that go together.** -/
structure Noting (C : Comparison σ τ) (notes : Notes σ) (notes' : Notes τ) : Prop where
  before : C.Same notes.before notes'.before
  behind : C.Same notes.behind notes'.behind
  default : C.Same notes.default notes'.default
  start : C.Same notes.start notes'.start
  value : ∀ v, C.Same (notes.value v) (notes'.value v)
  global : C.Same notes.global notes'.global
  declaring : ∀ s body, C.Same (notes.declaring s body) (notes'.declaring s body)
  load : ∀ {Q : Option Value → Prop} {act act'}, C.Rel Q act act' →
    C.Rel Q (notes.load act) (notes'.load act')
  call : ∀ f args {act act'}, C.Same act act' → C.Same (notes.call f args act) (notes'.call f args act')
  countTo : ∀ {Q : Option Value → Prop} limits first last inclusive {body body'}, Q none →
    (∀ i, C.Rel Q (body i) (body' i)) →
      C.Rel Q ((notes.loops limits).countTo first last inclusive body)
        ((notes'.loops limits).countTo first last inclusive body')
  whileHolds : ∀ {Q : Option Value → Prop} limits {condition condition' body body'}, Q none →
    C.Same condition condition' → C.Rel Q body body' →
      C.Rel Q ((notes.loops limits).whileHolds condition body)
        ((notes'.loops limits).whileHolds condition' body')

/-- Looks before and behind statements that go together, whatever is noted of files. -/
theorem noting_looks {before behind : Render σ Unit} {before' behind' : Render τ Unit}
    (h : C.Same before before') (h' : C.Same behind behind') (read : Path → Render σ Unit)
    (read' : Path → Render τ Unit) :
    C.Noting { before, behind, read } { before := before', behind := behind', read := read' } where
  before := h
  behind := h'
  default := same_ret ()
  start := same_ret ()
  value _ := same_ret ()
  global := same_ret ()
  declaring _ _ := same_ret ()
  load h := h
  call _ _ _ _ h := h
  countTo _ _ _ _ _ _ hQ h := C.concord.count hQ _ _ h _ _ _
  whileHolds _ _ _ _ _ hQ hc h := C.concord.whileHolds hQ _ hc h _

theorem noting_none : C.Noting .none .none := noting_looks (same_ret ()) (same_ret ()) _ _

section

variable {notes : Notes σ} {notes' : Notes τ} {host : Host σ} {host' : Host τ}
  {caller : Caller σ} {caller' : Caller τ} (limits : Limits)

/-- The value of an expression that goes to a variable. -/
theorem evaluate (hn : C.Noting notes notes') (hh : C.Answers host host')
    (hc : C.Callers caller caller') (e : Expr) (he : ∀ n ∈ e.calls, C.ok n) :
    C.Same (Noted.evaluate notes host caller e) (Noted.evaluate notes' host' caller' e) :=
  (eval hh hc e he).seq fun v => (hn.value v).seq fun _ => same_ret v

theorem declared (hn : C.Noting notes notes') (hh : C.Answers host host')
    (hc : C.Callers caller caller') (isGlobal : Bool) (e : Expr) (he : ∀ n ∈ e.calls, C.ok n) :
    C.Same (Noted.declared notes host caller isGlobal e)
      (Noted.declared notes' host' caller' isGlobal e) := by
  refine (evaluate hn hh hc e he).seq fun v => ?_
  split
  · exact hn.global.seq fun _ => same_ret v
  · exact same_ret v

mutual

/-- **A statement** that calls only what may be called compares with itself. -/
theorem exec (hn : C.Noting notes notes') (hh : C.Answers host host')
    (hc : C.Callers caller caller') {place : Place σ} {place' : Place τ}
    (hp : C.Places place place') (s : Stmt) (hs : ∀ n ∈ s.calls, C.ok n) :
    C.Rel (Returns place) (Noted.exec notes host limits caller place s)
      (Noted.exec notes' host' limits caller' place' s) := by
  have none : Returns place none := returns_none place
  have round {act : Render σ (Option Value)} {act' : Render τ (Option Value)}
      (h : C.Rel (Returns place.inner) act act') :
      C.Rel (Returns place) (do notes.start; act) (do notes'.start; act') :=
    hn.start.seq fun _ => C.weaken h fun _ => returns_inner
  cases s with
  | inert => exact C.ret none
  | declare name e isDefault isGlobal =>
    exact silent none (declare (declared hn hh hc isGlobal e hs) name isDefault isGlobal)
  | rule body =>
    simp only [Noted.exec, hp.isFunction_eq]
    split
    · exact C.fail _
    · exact inScope _ (execAll hn hh hc hp body hs)
  | «scoped» keyword body =>
    simp only [Noted.exec, hp.isFunction_eq]
    split
    · exact C.fail _
    · exact inScope _ (execAll hn hh hc hp body hs)
  | choose links otherwise =>
    rw [Stmt.calls, List.forall_mem_append] at hs
    exact execLinks hn hh hc hp (execAll hn hh hc hp otherwise hs.2) links hs.1
  | strayElse => exact C.fail _
  | each header body =>
    -- a header that reads calls what the statement calls, and one that does not fails on both sides
    rw [Stmt.calls, List.forall_mem_append] at hs
    refine C.seq (C.concord.ofFault header) fun h hheader => ?_
    rw [hheader] at hs
    refine (eval hh hc h.list hs.1).seq fun list => C.concord.forEach none (fun element => ?_) _
    exact inScope _ (round (execAll hn hh hc hp.inner body hs.2))
  | «for» header body =>
    rw [Stmt.calls, List.forall_mem_append] at hs
    refine C.seq (C.concord.ofFault header) fun h hheader => ?_
    rw [hheader, callsOf, ForHeader.calls, List.forall_mem_append] at hs
    refine (eval hh hc h.first hs.1.1).seq fun first =>
      C.concord.andThen (C.concord.integer first) fun first => ?_
    refine (eval hh hc h.last hs.1.2).seq fun last =>
      C.concord.andThen (C.concord.integer last) fun last => ?_
    exact hn.countTo limits _ _ _ none fun index =>
      inScope _ (round (execAll hn hh hc hp.inner body hs.2))
  | «while» condition body =>
    rw [Stmt.calls, List.forall_mem_append] at hs
    exact hn.whileHolds limits none (eval hh hc condition hs.1)
      (inScope _ (round (execAll hn hh hc hp.inner body hs.2)))
  | report what e =>
    exact (eval hh hc e hs).seq fun v => (reportValue what v).seq fun _ => C.ret none
  | «return» e =>
    simp only [Noted.exec, Stmt.exec, hp.isFunction_eq]
    split
    · next hf =>
      -- the place is a function, so that nothing is claimed of what is returned
      refine (eval hh hc e hs).seq fun v => C.ret fun h => ?_
      rw [hf] at h
      cases h
    · exact C.fail _
  | function signature body =>
    rw [Stmt.calls, List.forall_mem_append] at hs
    simp only [Noted.exec, hp.isFunction_eq]
    split
    · exact C.fail _
    · refine C.seq (C.concord.ofFault signature) fun s hsignature => ?_
      rw [hsignature] at hs
      exact (hn.declaring s body).seq fun _ => (declareFunction hs.1 hs.2).seq fun _ => C.ret none
  | imports urls =>
    cases hp with
    | top hl => exact silent none (importAll hl urls)
    | loop => exact C.fail _
    | function => exact C.fail _
  | load what header =>
    cases hp with
    | top hl =>
      refine hn.load (C.seq (C.concord.ofFault header) fun h hheader => ?_)
      rw [Stmt.calls, hheader] at hs
      cases what with
      | use => exact silent none (use (evaluate hn hh hc) hl hs)
      | forward => exact silent none (forward (evaluate hn hh hc) hl hs)
    | loop => exact C.fail _
    | function => exact C.fail _
  | other keyword =>
    simp only [Noted.exec, Stmt.exec, hp.isFunction_eq]
    split
    · exact C.fail _
    · exact silent none (C.report _ _)

/-- **Statements** that call only what may be called compare with themselves. -/
theorem execAll (hn : C.Noting notes notes') (hh : C.Answers host host')
    (hc : C.Callers caller caller') {place : Place σ}
    {place' : Place τ} (hp : C.Places place place') (ss : List Stmt)
    (hss : ∀ n ∈ Stmt.callsOfAll ss, C.ok n) :
    C.Rel (Returns place) (Noted.execAll notes host limits caller place ss)
      (Noted.execAll notes' host' limits caller' place' ss) := by
  match ss with
  | [] => exact C.ret (returns_none place)
  | s :: ss =>
    rw [Stmt.callsOfAll, List.forall_mem_append] at hss
    refine hn.before.seq fun _ => C.seq (exec hn hh hc hp s hss.1) fun r hr =>
      hn.behind.seq fun _ => ?_
    cases r with
    | some v => exact C.ret hr
    | none => exact execAll hn hh hc hp ss hss.2

theorem execLinks (hn : C.Noting notes notes') (hh : C.Answers host host')
    (hc : C.Callers caller caller') {place : Place σ}
    {place' : Place τ} (hp : C.Places place place') {otherwise : Render σ (Option Value)}
    {otherwise' : Render τ (Option Value)} (ho : C.Rel (Returns place) otherwise otherwise')
    (links : List (Expr × List Stmt)) (hl : ∀ n ∈ Stmt.callsOfLinks links, C.ok n) :
    C.Rel (Returns place) (Noted.execLinks notes host limits caller place otherwise links)
      (Noted.execLinks notes' host' limits caller' place' otherwise' links) := by
  match links with
  | [] => exact ho
  | (condition, body) :: links =>
    rw [Stmt.callsOfLinks, List.forall_mem_append, List.forall_mem_append] at hl
    refine (eval hh hc condition hl.1.1).seq fun v => ?_
    split
    · exact execAll hn hh hc hp body hl.1.2
    · exact execLinks hn hh hc hp ho links hl.2

end

/-! ### Calls of functions of stylesheets -/

theorem atHome {name : String} {f : UserFunction} {act : Render σ α} {act' : Render τ α}
    (h : C.Same act act') : C.Same (atHome name f act) (atHome name f act') := by
  unfold Render.atHome
  cases f.home with
  | none => exact inFrame h
  | some p =>
    refine C.sheet.same.seq fun sheet => ?_
    split
    · exact inFrame h
    · refine C.seq (C.module? p) fun m hm => ?_
      cases m with
      | none => exact C.fail _
      | some m => exact inSheet (hm m rfl) (inFrame h)

theorem invoke (hn : C.Noting notes notes') (hh : C.Answers host host')
    (hc : C.Callers caller caller') :
    C.Callers (Noted.invoke notes host limits caller)
      (Noted.invoke notes' host' limits caller') := by
  intro name f args hf
  unfold UserFunction.CallsOnly UserFunction.calls at hf
  rw [List.forall_mem_append] at hf
  unfold Noted.invoke
  refine Same.seq (hn.call f args (atHome ?_)) fun result => ?_
  · have default (e : Expr) (he : ∀ n ∈ e.calls, C.ok n) :
        C.Same (Noted.default notes host caller e) (Noted.default notes' host' caller' e) :=
      hn.default.seq fun _ => evaluate hn hh hc e he
    exact hn.start.seq fun _ => (bind default name _ _ hf.1 args).seq fun _ =>
      hn.start.seq fun _ => (execAll limits hn hh hc .function f.body hf.2).same
  · cases result with
    | some v => exact same_ret v
    | none => exact C.fail _

theorem callAt (hn : C.Noting notes notes') (hh : C.Answers host host') (n : Nat) :
    C.Callers (Noted.callAt notes host limits n) (Noted.callAt notes' host' limits n) := by
  induction n with
  | zero => exact fun name f args _ => C.fail _
  | succ n ih => exact invoke limits hn hh ih

end

end Comparison
end Render
end Stylesheet
