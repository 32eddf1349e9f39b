import Stylesheet.Proofs.Render.Muted
import Stylesheet.Render.Run

/-!
# Running statements without texts

Statements that are the same but for texts are alike wherever they stand and whatever they load, and
so are whole renderings.

* `Render.Alike.exec`, `Render.Alike.execAll`: a statement, and several in order.
* `Render.callsAlike_callAt`: calls of functions of stylesheets.
* `Render.runsAlike_runFile`: the statements of a file, with all that they import and load.
-/

namespace Stylesheet
namespace Render

variable {σ α : Type}

namespace Alike

/-! ### Loops -/

theorem forEach {body body' : α → Render σ (Option Value)} (h : ∀ a, Alike Eq (body a) (body' a))
    (as : List α) : Alike Eq (Render.forEach body as) (Render.forEach body' as) := by
  induction as with
  | nil => exact ret rfl
  | cons a as ih =>
    refine (h a).andThen fun r => ?_
    cases r with
    | some v => exact ret rfl
    | none => exact ih

theorem count (limit : Nat) (step : Int) {body body' : Int → Render σ (Option Value)}
    (h : ∀ i, Alike Eq (body i) (body' i)) (allowed rounds : Nat) (index : Int) :
    Alike Eq (Render.count limit step body allowed rounds index)
      (Render.count limit step body' allowed rounds index) := by
  induction allowed generalizing rounds index with
  | zero =>
    cases rounds with
    | zero => exact ret rfl
    | succ rounds => exact fail rfl
  | succ allowed ih =>
    cases rounds with
    | zero => exact ret rfl
    | succ rounds =>
      refine (h index).andThen fun r => ?_
      cases r with
      | some v => exact ret rfl
      | none => exact ih rounds _

theorem whileHolds (limit : Nat) {condition condition' : Render σ Value}
    (hc : Alike Eq condition condition') {body body' : Render σ (Option Value)}
    (h : Alike Eq body body') (allowed : Nat) :
    Alike Eq (Render.whileHolds limit condition body allowed)
      (Render.whileHolds limit condition' body' allowed) := by
  induction allowed with
  | zero =>
    refine hc.andThen fun v => ?_
    split
    · exact fail rfl
    · exact ret rfl
  | succ allowed ih =>
    refine hc.andThen fun v => ?_
    split
    · refine h.andThen fun r => ?_
      cases r with
      | some v => exact ret rfl
      | none => exact ih
    · exact ret rfl

theorem integer (v : Value) : Alike (σ := σ) Eq (Render.integer v) (Render.integer v) := by
  unfold Render.integer
  split
  · split
    · exact ret rfl
    · exact fail rfl
  · exact fail rfl

/-! ### Arguments -/

/-- Binding arguments is alike if the defaults of parameters are. -/
theorem bind {default : Expr → Render σ Value} (hd : ∀ e, Alike Eq (default e) (default e.mute))
    (function : String) (count : Nat) (ps : List Parameter) (args : Arguments) :
    Alike Eq (Eval.bind default function count ps args)
      (Eval.bind default function count (ps.map Parameter.mute) args) := by
  induction ps generalizing args with
  | nil =>
    obtain ⟨positional, named⟩ := args
    rcases positional with _ | ⟨v, vs⟩
    · rcases named with _ | ⟨k, ks⟩
      · exact ret rfl
      · exact fail rfl
    · exact fail rfl
  | cons p ps ih =>
    obtain ⟨name, default?, rest⟩ := p
    rw [List.map_cons, show Parameter.mute ⟨name, default?, rest⟩ =
      ⟨name, default?.map Expr.mute, rest⟩ from rfl, Eval.bind, Eval.bind]
    cases rest with
    | true => exact (modifyScopes _).andThen fun _ => ih _
    | false =>
      simp only [Bool.false_eq_true, if_false]
      cases args.positional with
      | cons v vs => exact (modifyScopes _).andThen fun _ => ih _
      | nil =>
        cases Eval.takeNamed (Name.ofString name) args.named with
        | some vn => exact (modifyScopes _).andThen fun _ => ih _
        | none =>
          cases default? with
          | none => exact fail rfl
          | some e => exact (hd e).andThen fun v => (modifyScopes _).andThen fun _ => ih _

/-! ### Modules -/

theorem libraryOf (url name : String) :
    Alike (σ := σ) Eq (Render.libraryOf url name) (Render.libraryOf url name) := by
  unfold Render.libraryOf
  cases Builtin.Library.ofName? name with
  | some l => exact ret rfl
  | none => exact fail rfl

theorem ensureFree (space : Option Name) :
    Alike (σ := σ) Eq (Render.ensureFree space) (Render.ensureFree space) := by
  cases space with
  | none => exact ret rfl
  | some n =>
    refine sheet.seq fun s s' hs => ?_
    obtain ⟨-, -, hspaces, -⟩ := Sheet.mute_eq_iff.1 hs
    rw [hspaces]
    split
    · exact fail rfl
    · exact ret rfl

theorem nameModule (n : Name) (space : Namespace) :
    Alike (σ := σ) Eq (Render.nameModule n space) (Render.nameModule n space) :=
  modifySheet (g := fun s =>
    { s with namespaces := { s.namespaces with named := s.namespaces.named.insert n space } })
    (fun _ => rfl) fun _ => rfl

theorem useFlat (l : Builtin.Library) :
    Alike (σ := σ) Eq (Render.useFlat l) (Render.useFlat l) :=
  modifySheet (g := fun s =>
    { s with namespaces := { s.namespaces with flat := s.namespaces.flat ++ [l] } })
    (fun _ => rfl) fun _ => rfl

theorem merge {m m' : Module} (hm : m'.mute = m.mute) (front : Name) :
    Alike (σ := σ) Eq (Render.modifySheet (·.merge m front))
      (Render.modifySheet (·.merge m' front)) :=
  modifySheet (g := (·.merge m.mute front)) (fun s => s.merge_mute m front)
    fun s => by rw [s.merge_mute m' front, hm]

theorem useLibrary (h : LoadHeader) (l : Builtin.Library) :
    Alike (σ := σ) Eq (Render.useLibrary h l) (Render.useLibrary h.mute l) := by
  have hsome : h.mute.configuration.isSome = h.configuration.isSome := by simp [LoadHeader.mute]
  unfold Render.useLibrary
  rw [hsome, show h.mute.namespace? = h.namespace? from rfl]
  split
  · exact fail rfl
  · cases h.namespace? with
    | some n => exact nameModule n _
    | none => exact useFlat l

/-- What a stylesheet loads, from states that are the same but for texts. -/
structure LoadsAlike (loader : Loader σ) : Prop where
  importFile : ∀ url, Alike Eq (loader.importFile url) (loader.importFile url)
  moduleOf : ∀ url bindings, Alike (fun a b => b.1 = a.1 ∧ b.2.mute = a.2.mute)
    (loader.moduleOf url bindings) (loader.moduleOf url bindings)

section

variable {evaluate : Expr → Render σ Value} (he : ∀ e, Alike Eq (evaluate e) (evaluate e.mute))
include he

theorem configure (h : LoadHeader) :
    Alike Eq (Render.configure evaluate h) (Render.configure evaluate h.mute) := by
  have hall (settings : List (Name × Expr)) (t : Bindings) : Alike Eq
      (settings.foldlM (fun (t : Bindings) x => do return t.insert x.1 (← evaluate x.2)) t)
      ((muteSettings settings).foldlM
        (fun (t : Bindings) x => do return t.insert x.1 (← evaluate x.2)) t) := by
    induction settings generalizing t with
    | nil => exact ret rfl
    | cons x settings ih =>
      have hfirst : Alike Eq (do return t.insert x.1 (← evaluate x.2))
          (do return t.insert x.1 (← evaluate x.2.mute)) := (he x.2).andThen fun v => ret rfl
      exact hfirst.andThen fun t => ih t
  unfold Render.configure
  cases hconfiguration : h.configuration with
  | none =>
    have hmute : h.mute.configuration = none := by simp [LoadHeader.mute, hconfiguration]
    rw [hmute]
    exact ret rfl
  | some c =>
    have hmute : h.mute.configuration = some (muteResult muteSettings c) := by
      simp [LoadHeader.mute, hconfiguration]
    rw [hmute]
    refine (ofFault muteSettings c).seq fun settings settings' hs => ?_
    rw [hs]
    exact hall settings .empty

variable {loader : Loader σ} (hl : LoadsAlike loader)
include hl

theorem use (h : LoadHeader) :
    Alike Eq (Render.use evaluate loader h) (Render.use evaluate loader h.mute) := by
  unfold Render.use
  refine (ensureFree h.namespace?).andThen fun _ => ?_
  rw [show h.mute.libraryName? = h.libraryName? from rfl]
  cases h.libraryName? with
  | some library => exact (libraryOf h.url library).andThen fun l => useLibrary h l
  | none =>
    refine (configure he h).andThen fun bindings => (hl.moduleOf h.url bindings).seq ?_
    rintro ⟨p, m⟩ ⟨p', m'⟩ ⟨rfl, hm⟩
    rw [show h.mute.namespace? = h.namespace? from rfl]
    cases h.namespace? with
    | some n => exact nameModule n _
    | none => exact merge hm h.front

theorem forward (h : LoadHeader) :
    Alike Eq (Render.forward evaluate loader h) (Render.forward evaluate loader h.mute) := by
  unfold Render.forward
  rw [show h.mute.libraryName? = h.libraryName? from rfl]
  cases h.libraryName? with
  | some library => exact (libraryOf h.url library).andThen fun l => useFlat l
  | none =>
    refine (configure he h).andThen fun bindings => (hl.moduleOf h.url bindings).seq ?_
    rintro ⟨p, m⟩ ⟨p', m'⟩ ⟨rfl, hm⟩
    exact merge hm h.front

end

/-! ### Statements -/

theorem silent {act act' : Render σ Unit} (h : Alike Eq act act') :
    Alike Eq (Stmt.silent act) (Stmt.silent act') := h.andThen fun _ => ret rfl

theorem declare {evaluate : Expr → Render σ Value} {e e' : Expr}
    (h : Alike Eq (evaluate e) (evaluate e')) (name : String) (isDefault isGlobal : Bool) :
    Alike Eq (Render.declare evaluate name e isDefault isGlobal)
      (Render.declare evaluate name e' isDefault isGlobal) := by
  unfold Render.declare
  refine sheet.seq fun s s' hs => ?_
  obtain ⟨hscopes, -, -, -⟩ := Sheet.mute_eq_iff.1 hs
  dsimp only
  rw [hscopes]
  split
  · exact ret rfl
  · refine h.andThen fun v => ?_
    split
    · exact modifyScopes _
    · exact modifyScopes _

theorem importAll {loader : Loader σ} (h : LoadsAlike loader) (urls : List String) :
    Alike Eq (urls.forM loader.importFile) (urls.forM loader.importFile) := by
  induction urls with
  | nil => exact ret rfl
  | cons url urls ih => exact (h.importFile url).andThen fun _ => ih

/-- Where statements stand whose loads are alike. -/
def PlaceAlike : Place σ → Prop
  | .top loader => LoadsAlike loader
  | .loop | .function => True

theorem PlaceAlike.inner {place : Place σ} (h : PlaceAlike place) : PlaceAlike place.inner := by
  cases place with
  | top loader => trivial
  | loop => exact h
  | function => exact h

section

variable [Log.Sink σ]

theorem report (level : Log.Level) (text : String) :
    Alike (σ := σ) Eq (Render.report level text) (Render.report level text) := ofHost _

theorem declareFunction (s : Signature) (body : List Stmt) :
    Alike (σ := σ) Eq (Render.declareFunction s body)
      (Render.declareFunction s.mute (Stmt.muteAll body)) := by
  have hparameters : (s.parameters.map Parameter.mute).map Parameter.mute =
      s.parameters.map Parameter.mute := congrArg Signature.parameters s.mute_mute
  refine (report _ _).andThen fun _ => modifySheet (g := fun sheet =>
    let f : UserFunction := ⟨s.parameters, body, sheet.path⟩
    { sheet with functions := sheet.functions.insert (.ofString s.name) f.mute })
    (fun sheet => ?_) fun sheet => ?_
  · simp only [Sheet.mute, Table.mapValues_insert]
  · simp only [Sheet.mute, Table.mapValues_insert, UserFunction.mute, Signature.mute, hparameters,
      Stmt.muteAll_mute]

theorem reportValue (what : Report) (v : Value) :
    Alike (σ := σ) Eq (Render.reportValue what v) (Render.reportValue what v) := by
  cases what with
  | error => exact fail rfl
  | warn => exact report _ _
  | debug => exact report _ _

variable {host : Host σ} {caller : Caller σ} (limits : Limits)

mutual

/-- **A statement without texts** does the same. -/
theorem exec (hc : CallsAlike caller) {place : Place σ} (hp : PlaceAlike place) (s : Stmt) :
    Alike Eq (Stmt.exec host limits caller place s)
      (Stmt.exec host limits caller place s.mute) := by
  cases s with
  | inert => exact ret rfl
  | declare name e isDefault isGlobal => exact silent (declare (eval hc e) name isDefault isGlobal)
  | rule body =>
    simp only [Stmt.mute, Stmt.exec]
    split
    · exact fail rfl
    · exact inScope _ (execAll hc hp body)
  | «scoped» keyword body =>
    simp only [Stmt.mute, Stmt.exec]
    split
    · exact fail rfl
    · exact inScope _ (execAll hc hp body)
  | choose links otherwise => exact execLinks hc hp (execAll hc hp otherwise) links
  | strayElse => exact fail rfl
  | each header body =>
    refine (ofFault EachHeader.mute header).seq fun h h' hh => ?_
    obtain rfl := hh
    refine (eval hc h.list).andThen fun list => forEach (fun element => ?_) _
    exact inScope _ (execAll hc hp.inner body)
  | «for» header body =>
    refine (ofFault ForHeader.mute header).seq fun h h' hh => ?_
    obtain rfl := hh
    refine (eval hc h.first).andThen fun first => (integer first).andThen fun first => ?_
    refine (eval hc h.last).andThen fun last => (integer last).andThen fun last => ?_
    exact count _ _ (fun index => inScope _ (execAll hc hp.inner body)) _ _ _
  | «while» condition body =>
    exact whileHolds _ (eval hc condition) (inScope _ (execAll hc hp.inner body)) _
  | report what e =>
    exact (eval hc e).andThen fun v => (reportValue what v).andThen fun _ => ret rfl
  | «return» e =>
    simp only [Stmt.mute, Stmt.exec]
    split
    · exact (eval hc e).andThen fun v => ret rfl
    · exact fail rfl
  | function signature body =>
    simp only [Stmt.mute, Stmt.exec]
    split
    · exact fail rfl
    · refine (ofFault Signature.mute signature).seq fun s s' hs => ?_
      obtain rfl := hs
      exact (declareFunction s body).andThen fun _ => ret rfl
  | imports urls =>
    cases place with
    | top loader => exact silent (importAll hp urls)
    | loop => exact fail rfl
    | function => exact fail rfl
  | load what header =>
    cases place with
    | top loader =>
      refine (ofFault LoadHeader.mute header).seq fun h h' hh => ?_
      obtain rfl := hh
      cases what with
      | use => exact silent (use (eval hc) hp h)
      | forward => exact silent (forward (eval hc) hp h)
    | loop => exact fail rfl
    | function => exact fail rfl
  | other keyword =>
    simp only [Stmt.mute, Stmt.exec]
    split
    · exact fail rfl
    · exact silent (report _ _)

theorem execAll (hc : CallsAlike caller) {place : Place σ} (hp : PlaceAlike place)
    (ss : List Stmt) :
    Alike Eq (Stmt.execAll host limits caller place ss)
      (Stmt.execAll host limits caller place (Stmt.muteAll ss)) := by
  match ss with
  | [] => exact ret rfl
  | s :: ss =>
    refine (exec hc hp s).andThen fun r => ?_
    cases r with
    | some v => exact ret rfl
    | none => exact execAll hc hp ss

theorem execLinks (hc : CallsAlike caller) {place : Place σ} (hp : PlaceAlike place)
    {otherwise otherwise' : Render σ (Option Value)} (ho : Alike Eq otherwise otherwise')
    (links : List (Expr × List Stmt)) :
    Alike Eq (Stmt.execLinks host limits caller place otherwise links)
      (Stmt.execLinks host limits caller place otherwise' (Stmt.muteLinks links)) := by
  match links with
  | [] => exact ho
  | (condition, body) :: links =>
    refine (eval hc condition).andThen fun v => ?_
    split
    · exact execAll hc hp body
    · exact execLinks hc hp ho links

end

/-- **Statements that are the same but for texts** do the same. -/
theorem execAll_of_mute (hc : CallsAlike caller) {place : Place σ} (hp : PlaceAlike place)
    {ss ss' : List Stmt} (h : Stmt.muteAll ss' = Stmt.muteAll ss) :
    Alike Eq (Stmt.execAll host limits caller place ss)
      (Stmt.execAll host limits caller place ss') :=
  of_mute Stmt.muteAll (execAll limits hc hp) h

end

/-! ### Calls of functions of stylesheets -/

theorem atHome {name : String} {f f' : UserFunction} (hf : f'.home = f.home) {act act' : Render σ α}
    (h : Alike Eq act act') : Alike Eq (Render.atHome name f act) (Render.atHome name f' act') := by
  unfold Render.atHome
  rw [hf]
  cases f.home with
  | none => exact inFrame h
  | some p =>
    refine sheet.seq fun s s' hs => ?_
    obtain ⟨-, -, -, hpath⟩ := Sheet.mute_eq_iff.1 hs
    rw [hpath]
    split
    · exact inFrame h
    · refine (module? p).seq fun m m' hm => ?_
      cases m with
      | none =>
        obtain rfl := Option.map_eq_none_iff.1 hm
        exact fail rfl
      | some m =>
        obtain ⟨m', rfl, hmute⟩ := Option.map_eq_some_iff.1 hm
        obtain ⟨hbindings, hfunctions, hspaces⟩ := Module.mute_eq_iff.1 hmute
        refine inSheet (Sheet.mute_eq_iff.2 ⟨?_, hfunctions, hspaces, rfl⟩) (inFrame h)
        exact congrArg (fun b => (⟨[], b⟩ : Scopes)) hbindings

end Alike

variable [Log.Sink σ] (host : Host σ) (limits : Limits)

theorem callsAlike_invoke {caller : Caller σ} (hc : CallsAlike caller) :
    CallsAlike (invoke host limits caller) := by
  intro name f f' args hf
  obtain ⟨hparameters, hbody, hhome⟩ : f'.parameters.map Parameter.mute =
      f.parameters.map Parameter.mute ∧ Stmt.muteAll f'.body = Stmt.muteAll f.body ∧
        f'.home = f.home := by simpa [UserFunction.mute] using hf
  have hcount : f'.parameters.length = f.parameters.length := by
    simpa using congrArg List.length hparameters
  unfold invoke
  refine (Alike.atHome hhome ?_).andThen fun result => ?_
  · rw [hcount]
    refine Alike.andThen (.of_mute (List.map Parameter.mute)
      (fun ps => .bind (.eval hc) name _ ps args) hparameters) fun _ => ?_
    exact .execAll_of_mute limits hc (show Alike.PlaceAlike .function from trivial) hbody
  · cases result with
    | some v => exact .ret rfl
    | none => exact .fail rfl

/-- **Calls** of functions that are the same but for texts are alike, however many may lie inside
each other. -/
theorem callsAlike_callAt (n : Nat) : CallsAlike (callAt host limits n) := by
  induction n with
  | zero => exact fun name f f' args _ => .fail rfl
  | succ n ih => exact callsAlike_invoke host limits ih

/-! ### Files -/

/-- What runs files is alike for statements that are the same but for texts. -/
def RunsAlike (run : Runner σ) : Prop :=
  ∀ origin (body body' : List Stmt), Stmt.muteAll body' = Stmt.muteAll body →
    Alike Eq (run origin body) (run origin body')

namespace Alike

omit [Log.Sink σ] in
theorem resolve (origin : Origin) (url : String) :
    Alike Eq (Render.resolve host origin url) (Render.resolve host origin url) := by
  unfold Render.resolve
  refine (ofHost _).andThen fun r => ?_
  cases r with
  | ok p => exact ret rfl
  | error message => exact fail rfl

theorem readSheet (p : Path) : Alike Eq (Render.readSheet host p) (Render.readSheet host p) := by
  unfold Render.readSheet
  refine (report _ _).andThen fun _ => ?_
  cases host.read p with
  | error reason => exact fail rfl
  | ok source =>
    dsimp only
    cases parse source with
    | error e => exact fail rfl
    | ok tree => exact ret rfl

variable {next : Option (Runner σ)} (hn : ∀ run ∈ next, RunsAlike run)
include hn

omit [Log.Sink σ] in
theorem open? (p : Path) :
    Alike (fun run run' => run' = run ∧ RunsAlike run) (Render.open? limits next p)
      (Render.open? limits next p) := by
  cases next with
  | none => exact fail rfl
  | some run => exact ret ⟨rfl, hn run rfl⟩

theorem importFile (origin : Origin) (url : String) :
    Alike Eq (Render.importFile host limits next origin url)
      (Render.importFile host limits next origin url) := by
  unfold Render.importFile
  split
  · exact report _ _
  · refine (resolve host origin url).andThen fun p => (open? limits hn p).seq ?_
    rintro run _ ⟨rfl, hrun⟩
    refine (readSheet host p).andThen fun body => (hrun _ body body rfl).around (fun s s' hs => ?_)
      fun _ _ => rfl
    obtain ⟨hscopes, hfunctions, -, hpath⟩ := Sheet.mute_eq_iff.1 hs
    exact Sheet.mute_eq_iff.2 ⟨hscopes, hfunctions, rfl, hpath⟩

omit hn in
theorem runModule {run : Runner σ} (hrun : RunsAlike run) (p : Path) (bindings : Bindings)
    (body : List Stmt) :
    Alike (fun m m' => m'.mute = m.mute) (Render.runModule run p bindings body)
      (Render.runModule run p bindings body) := by
  unfold Render.runModule
  refine seq (R := fun m m' : Module => m'.mute = m.mute) (inSheet rfl ?_) fun m m' hm => ?_
  · refine (hrun _ body body rfl).andThen fun _ => sheet.seq fun s s' hs => ret ?_
    obtain ⟨hscopes, hfunctions, hspaces, -⟩ := Sheet.mute_eq_iff.1 hs
    exact Module.mute_eq_iff.2 ⟨congrArg Scopes.global hscopes, hfunctions, hspaces⟩
  · obtain ⟨hbindings, hfunctions, -⟩ := Module.mute_eq_iff.1 hm
    have hsize : m'.functions.size = m.functions.size := by
      simpa [Table.mapValues, Table.size] using
        congrArg (fun t : Table Name UserFunction => t.entries.length) hfunctions
    rw [hbindings, hsize]
    exact (report _ _).andThen fun _ => ret hm

theorem moduleOf (origin : Origin) (url : String) (bindings : Bindings) :
    Alike (fun a b => b.1 = a.1 ∧ b.2.mute = a.2.mute)
      (Render.moduleOf host limits next origin url bindings)
      (Render.moduleOf host limits next origin url bindings) := by
  unfold Render.moduleOf
  refine (resolve host origin url).andThen fun p => (module? p).seq fun m m' hm => ?_
  cases m with
  | some m =>
    obtain ⟨m', rfl, hmute⟩ := Option.map_eq_some_iff.1 hm
    dsimp only
    split
    · exact ret ⟨rfl, hmute⟩
    · exact fail rfl
  | none =>
    obtain rfl := Option.map_eq_none_iff.1 hm
    refine (open? limits hn p).seq ?_
    rintro run _ ⟨rfl, hrun⟩
    refine (readSheet host p).andThen fun body => (runModule hrun p bindings body).seq ?_
    exact fun m m' hm => (keep p hm).andThen fun _ => ret ⟨rfl, hm⟩

theorem loader (origin : Origin) : LoadsAlike (Render.loader host limits next origin) :=
  ⟨importFile host limits hn origin, moduleOf host limits hn origin⟩

end Alike

/-- **Files** run alike if their statements are the same but for texts. -/
theorem runsAlike_runFile (n : Nat) : RunsAlike (runFile host limits n) := by
  have hrun (next : Option (Runner σ)) (hn : ∀ run ∈ next, RunsAlike run) :
      RunsAlike fun origin => runFile.run host limits (loader host limits next origin) := by
    intro origin body body' h
    exact Alike.andThen (.execAll_of_mute limits (callsAlike_callAt host limits _)
      (show Alike.PlaceAlike (.top _) from Alike.loader host limits hn origin) h) fun _ => .ret rfl
  induction n with
  | zero => exact hrun none (by simp)
  | succ n ih => exact hrun (some (runFile host limits n)) (by simpa using ih)

end Render
end Stylesheet
