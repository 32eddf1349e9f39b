import Stylesheet.Proofs.Render.JournaledEval
import Stylesheet.Render.Exec

/-!
# Statements with a journal

Statements go along with themselves if calls of functions and what they load do. A loop goes along
with its own count of rounds: what is left of the rounds allowed is what the count has not used up.

* `Setting.Goes.countTo`, `Setting.Goes.whileHolds`: loops whose bodies go along.
* `Setting.Goes.use`, `Setting.Goes.forward`: rules that load modules.
* `Setting.Goes.execAll`: statements go along.
-/

namespace Stylesheet

open Render

variable {σ α : Type} {S : Setting σ}

namespace Setting

/-- What is known of the value that statements return, if they do. -/
abbrev Returns (S : Setting σ) (_ : State σ) (es : Journal) (r : Option Value) : Prop :=
  ∀ v ∈ r, S.Knows es v

theorem rounds_lt_clock (S : Setting σ) : S.limits.rounds < S.clock :=
  Nat.lt_of_le_of_lt (Nat.le_add_left _ _) S.ample

namespace Goes

variable {s : State σ} {es : Journal}

/-! ### Blocks and loops -/

theorem inScope {scope : Scope} (hscope : scope.bindings.All (S.Knows es))
    {act : Render σ (Option Value)} {act' : Journal.Step σ (Option Value)}
    (h : ∀ s es, S.Goes S.Returns act act' s es) :
    S.Goes S.Returns (Render.inScope scope act) (Render.inScope scope act') s es := by
  refine around (fun hs => hs.withScopes (hs.holds.scopes.push hscope)) (h _ es) ?_
    fun _ _ _ hr => hr
  intro s' es' _ hl hs'
  exact ⟨hs'.withScopes hs'.holds.scopes.pop, hl.path⟩

/-- A loop ends with what its body returns, or goes on. -/
theorem turn {act next : Render σ (Option Value)} {act' next' : Journal.Step σ (Option Value)}
    (h : S.Goes S.Returns act act' s es)
    (hn : ∀ s' es', Later s es s' es' → S.Goes S.Returns next next' s' es') :
    S.Goes S.Returns
      (do match ← act with
          | some v => return some v
          | none => next)
      (do match ← act' with
          | some v => return some v
          | none => next') s es := by
  refine bind h fun r s' es' hl hr => ?_
  cases r with
  | some v => exact ret hr
  | none => exact hn s' es' hl

/-- A body that runs for each of some known values. -/
theorem forEach {body : Value → Render σ (Option Value)}
    {body' : Value → Journal.Step σ (Option Value)}
    (h : ∀ v s es, S.Knows es v → S.Goes S.Returns (body v) (body' v) s es) {vs : List Value}
    (hvs : ∀ v ∈ vs, S.Knows es v) :
    S.Goes S.Returns (Render.forEach body vs) (Render.forEach body' vs) s es := by
  induction vs generalizing s es with
  | nil => exact ret nofun
  | cons v vs ih =>
    rw [List.forall_mem_cons] at hvs
    exact turn (h v s es hvs.1) fun s' es' hl => ih fun w hw => (hvs.2 w hw).later hl.journal

/-- One round more, which is entered. -/
theorem round {keyword : String} {done : Nat} (hdone : done < S.limits.rounds)
    {act : Render σ (Option Value)} {act' : Journal.Step σ (Option Value)}
    (h : ∀ s es, S.Goes S.Returns act act' s es) :
    S.Goes S.Returns act (Journal.round keyword S.limits.rounds done act') s es := by
  unfold Journal.round
  rw [if_neg (Nat.not_le.2 hdone)]
  exact entering (fun hs => hs.round hdone) (h _ _)

/-- A round too many fails like the loop itself. -/
theorem roundTooMany {keyword : String} {done : Nat} (hdone : S.limits.rounds ≤ done)
    {act' : Journal.Step σ (Option Value)}
    {next' : Option Value → Journal.Step σ (Option Value)} :
    S.Goes S.Returns (fault (.loopLimit keyword S.limits.rounds))
      (Journal.round keyword S.limits.rounds done act' >>= next') s es := by
  unfold Journal.round
  rw [if_pos hdone]
  exact fail

/-- As long as rounds are left, the index is not the one at which to stop. -/
theorem index_ne {step stopAt index : Int} {rounds : Nat} (hstep : step ≠ 0)
    (hstop : stopAt = index + (rounds + 1 : Nat) * step) : index ≠ stopAt := by
  intro heq
  have hzero : ((rounds + 1 : Nat) : Int) * step = 0 := by omega
  rcases Int.mul_eq_zero.1 hzero with h | h
  · omega
  · exact hstep h

/-- **A loop that counts** goes along with the one that compares its count with the limit. -/
theorem count {step stopAt : Int} (hstep : step ≠ 0) {body : Int → Render σ (Option Value)}
    {body' : Int → Journal.Step σ (Option Value)}
    (h : ∀ i s es, S.Goes S.Returns (body i) (body' i) s es)
    {allowed rounds clock done : Nat} {index : Int} (hallowed : done + allowed = S.limits.rounds)
    (hclock : allowed < clock) (hstop : stopAt = index + rounds * step) :
    S.Goes S.Returns (Render.count S.limits.rounds step body allowed rounds index)
      (Journal.count S.limits.rounds step stopAt body' clock done index) s es := by
  induction allowed generalizing s es rounds clock done index with
  | zero =>
    -- no round is allowed any more: the loop is at its end, or this is the limit
    obtain ⟨clock, rfl⟩ := Nat.exists_eq_add_one_of_ne_zero (Nat.ne_of_gt hclock)
    cases rounds with
    | zero =>
      rw [Render.count, Journal.count, if_pos (by simp [hstop])]
      exact ret nofun
    | succ rounds =>
      rw [Render.count, Journal.count, if_neg (index_ne hstep hstop)]
      exact roundTooMany (by omega)
  | succ allowed ih =>
    obtain ⟨clock, rfl⟩ := Nat.exists_eq_add_one_of_ne_zero (Nat.ne_zero_of_lt hclock)
    cases rounds with
    | zero =>
      rw [Render.count, Journal.count, if_pos (by simp [hstop])]
      exact ret nofun
    | succ rounds =>
      have hnext : stopAt = index + step + rounds * step := by
        rw [hstop, Int.natCast_succ, Int.add_mul, Int.one_mul]
        omega
      rw [Render.count, Journal.count, if_neg (index_ne hstep hstop)]
      exact turn (round (by omega) (h index)) fun s' es' _ => ih (by omega) (by omega) hnext

/-- **A `@for` loop** goes along with the one that stops at its last index. -/
theorem countTo (first last : Int) (inclusive : Bool) {body : Int → Render σ (Option Value)}
    {body' : Int → Journal.Step σ (Option Value)}
    (h : ∀ i s es, S.Goes S.Returns (body i) (body' i) s es) :
    S.Goes S.Returns (Render.countTo S.limits.rounds first last inclusive body)
      (Journal.countTo S.clock S.limits.rounds first last inclusive body') s es := by
  unfold Render.countTo Journal.countTo
  refine count ?_ h (Nat.zero_add _) S.rounds_lt_clock ?_
  · split <;> decide
  · split <;> split <;> omega

/-- **A `@while` loop** goes along with the one that counts its rounds. -/
theorem whileHolds {condition : Render σ Value} {condition' : Journal.Step σ Value}
    (hc : ∀ s es, S.Goes S.Yields condition condition' s es) {body : Render σ (Option Value)}
    {body' : Journal.Step σ (Option Value)} (h : ∀ s es, S.Goes S.Returns body body' s es)
    {allowed clock done : Nat} (hallowed : done + allowed = S.limits.rounds)
    (hclock : allowed < clock) :
    S.Goes S.Returns (Render.whileHolds S.limits.rounds condition body allowed)
      (Journal.whileHolds S.limits.rounds condition' body' clock done) s es := by
  induction allowed generalizing s es clock done with
  | zero =>
    obtain ⟨clock, rfl⟩ := Nat.exists_eq_add_one_of_ne_zero (Nat.ne_of_gt hclock)
    refine bind (hc s es) fun v s' es' _ _ => ?_
    split
    · exact roundTooMany (by omega)
    · exact ret nofun
  | succ allowed ih =>
    obtain ⟨clock, rfl⟩ := Nat.exists_eq_add_one_of_ne_zero (Nat.ne_zero_of_lt hclock)
    refine bind (hc s es) fun v s' es' _ _ => ?_
    split
    · exact turn (round (by omega) h) fun s'' es'' _ => ih (by omega) (by omega)
    · exact ret nofun

theorem integer (v : Value) :
    S.Goes (Same (fun _ => True) s es) (Render.integer v) (Render.integer v) s es := by
  unfold Render.integer
  split
  · split
    · exact same trivial
    · exact fail
  · exact fail

/-! ### Declarations and reports -/

theorem silent {act : Render σ Unit} {act' : Journal.Step σ Unit} (h : S.Goes Any act act' s es) :
    S.Goes S.Returns (Stmt.silent act) (Stmt.silent act') s es :=
  bind h fun _ _ _ _ _ => ret nofun

theorem declareFunction [Log.Sink σ] {signature : Signature} {body : List Stmt}
    (hparameters : ∀ p ∈ signature.parameters, p.Plain) (hbody : ∀ s ∈ body, s.Plain) :
    S.Goes Any (Render.declareFunction signature body) (Render.declareFunction signature body)
      s es := by
  unfold Render.declareFunction
  refine bind (report _ _) fun _ s' es' _ _ => modifySheet (fun hs => ?_) rfl
  exact hs.withSheet (hs.reaches.declareFunction _ _ _)
    ⟨hs.holds.scopes, hs.holds.functions.insert _ ⟨hparameters, hbody⟩⟩

theorem reportValue [Log.Sink σ] (what : Report) (v : Value) :
    S.Goes Any (Render.reportValue what v) (Render.reportValue what v) s es := by
  cases what with
  | error => exact fail
  | warn => exact report _ _
  | debug => exact report _ _

section

variable {caller : Caller σ} {caller' : Caller (Traced Entry σ)}
  (callers : S.Callers caller caller')
include callers

/-- **A declaration** goes along; the value is entered. -/
theorem declare {e : Expr} (he : e.Plain) (name : String) (isDefault isGlobal : Bool) :
    S.Goes Any (Render.declare (·.eval S.host caller) name e isDefault isGlobal)
      (Render.declare (Noted.declared S.notes (Journal.host S.host) caller' isGlobal)
        name e isDefault isGlobal) s es := by
  rw [Noted.declared_eq _ _ _ rfl]
  unfold Render.declare
  refine reading sheet fun _ _ => ?_
  dsimp only
  split
  · exact ret trivial
  · refine bind (evaluate callers he s es) fun v s' es' _ hv => ?_
    split
    · exact modifyScopes fun hs => hs.setGlobal _ hv
    · exact assign _ hv

/-! ### Rules that load modules -/

theorem configureAll {settings : List (Name × Expr)} (hs : ∀ x ∈ settings, x.2.Plain)
    {t : Bindings} (ht : t.All (S.Knows es)) :
    S.Goes (fun _ es' t => Table.All (S.Knows es') t)
      (settings.foldlM (fun (t : Bindings) x => do return t.insert x.1 (← x.2.eval S.host caller)) t)
      (settings.foldlM (fun (t : Bindings) x => do
        return t.insert x.1 (← Noted.evaluate S.notes (Journal.host S.host) caller' x.2)) t)
      s es := by
  induction settings generalizing t s es with
  | nil => exact ret ht
  | cons x settings ih =>
    rw [List.forall_mem_cons] at hs
    rw [List.foldlM_cons, List.foldlM_cons]
    refine bind (Q := fun _ es' t => Table.All (S.Knows es') t) ?_ fun t' s' es' _ ht' =>
      ih hs.2 ht'
    refine bind (evaluate callers hs.1 s es) fun v s' es' hl hv => ret ?_
    exact (ht.imp fun _ hw => hw.later hl.journal).insert x.1 hv

theorem configure {header : LoadHeader} (hh : header.Plain) :
    S.Goes (fun _ es' t => Table.All (S.Knows es') t)
      (Render.configure (·.eval S.host caller) header)
      (Render.configure (Noted.evaluate S.notes (Journal.host S.host) caller') header) s es := by
  unfold Render.configure
  cases hc : header.configuration with
  | none => exact ret Table.all_empty
  | some c =>
    exact reading (ofFault (hh c hc)) fun settings hs => configureAll callers hs Table.all_empty

end

theorem libraryOf (url name : String) :
    S.Goes (Same (fun _ => True) s es) (Render.libraryOf url name) (Render.libraryOf url name)
      s es := by
  unfold Render.libraryOf
  cases Builtin.Library.ofName? name with
  | some l => exact same trivial
  | none => exact fail

theorem ensureFree (space : Option Name) :
    S.Goes (Same (fun _ => True) s es) (Render.ensureFree space) (Render.ensureFree space) s es := by
  cases space with
  | none => exact same trivial
  | some n =>
    refine reading sheet fun _ _ => ?_
    split
    · exact fail
    · exact same trivial

theorem useFlat (l : Builtin.Library) :
    S.Goes Any (Render.useFlat l) (Render.useFlat l) s es :=
  modifySheet (fun hs => hs.withSheet ⟨hs.reaches.functions, hs.reaches.namespaces⟩
    ⟨hs.holds.scopes, hs.holds.functions⟩) rfl

theorem nameModule (n : Name) {space : Namespace} (hspace : space.Reaches s.modules) :
    S.Goes Any (Render.nameModule n space) (Render.nameModule n space) s es :=
  modifySheet (fun hs => hs.withSheet (hs.reaches.nameModule n hspace)
    ⟨hs.holds.scopes, hs.holds.functions⟩) rfl

theorem useLibrary (header : LoadHeader) (l : Builtin.Library) :
    S.Goes Any (Render.useLibrary header l) (Render.useLibrary header l) s es := by
  unfold Render.useLibrary
  split
  · exact fail
  · cases header.namespace? with
    | some n => exact nameModule n trivial
    | none => exact useFlat l

end Goes

/-- What is known of a module that is loaded. -/
structure Loads (S : Setting σ) (s : State σ) (es : Journal) (pm : Path × Module) : Prop where
  loaded : Loaded s.modules pm.1
  reaches : pm.2.Reaches s.modules
  holds : pm.2.Holds (S.Knows es)

/-- What statements reach other files by goes along. -/
structure Loaders (S : Setting σ) (loader : Loader σ) (loader' : Loader (Traced Entry σ)) :
    Prop where
  importFile : ∀ url s es, S.Goes Any (loader.importFile url) (loader'.importFile url) s es
  moduleOf : ∀ url (bindings : Bindings) s es, bindings.All (S.Knows es) →
    S.Goes S.Loads (loader.moduleOf url bindings) (loader'.moduleOf url bindings) s es

/-- Two places where the same statements stand. -/
inductive Places (S : Setting σ) : Place σ → Place (Traced Entry σ) → Prop
  | top {loader : Loader σ} {loader' : Loader (Traced Entry σ)} (h : S.Loaders loader loader') :
      Places S (.top loader) (.top loader')
  | loop : Places S .loop .loop
  | function : Places S .function .function

namespace Places

variable {place : Place σ} {place' : Place (Traced Entry σ)}

theorem isFunction_eq (h : S.Places place place') : place'.isFunction = place.isFunction := by
  cases h <;> rfl

theorem inner (h : S.Places place place') : S.Places place.inner place'.inner := by
  cases h with
  | top _ => exact .loop
  | loop => exact .loop
  | function => exact .function

end Places

namespace Goes

variable {caller : Caller σ} {caller' : Caller (Traced Entry σ)}
  {s : State σ} {es : Journal}

/-- Members of a module that is loaded. -/
theorem merge {pm : Path × Module} (hloads : S.Loads s es pm) (front : Name) :
    S.Goes Any (Render.modifySheet (·.merge pm.2 front)) (Render.modifySheet (·.merge pm.2 front))
      s es :=
  modifySheet (fun hs => hs.withSheet (hs.reaches.merge hloads.reaches front)
    (hs.holds.merge hloads.holds front)) rfl

section

variable (callers : S.Callers caller caller') {loader : Loader σ}
  {loader' : Loader (Traced Entry σ)} (hl : S.Loaders loader loader')
include hl

omit callers in
theorem importAll (urls : List String) :
    S.Goes Any (urls.forM loader.importFile) (urls.forM loader'.importFile) s es := by
  induction urls generalizing s es with
  | nil => exact ret trivial
  | cons url urls ih =>
    change S.Goes Any (loader.importFile url >>= fun _ => urls.forM loader.importFile)
      (loader'.importFile url >>= fun _ => urls.forM loader'.importFile) s es
    exact bind (hl.importFile url s es) fun _ _ _ _ _ => ih

include callers

/-- **A module that is used** is loaded before a namespace stands for it. -/
theorem use {header : LoadHeader} (hh : header.Plain) :
    S.Goes Any (Render.use (·.eval S.host caller) loader header)
      (Render.use (Noted.evaluate S.notes (Journal.host S.host) caller') loader' header) s es := by
  unfold Render.use
  refine reading (ensureFree _) fun _ _ => ?_
  cases header.libraryName? with
  | some library => exact reading (libraryOf header.url library) fun l _ => useLibrary header l
  | none =>
    refine bind (configure callers hh) fun bindings s₁ es₁ _ hbindings =>
      bind (hl.moduleOf header.url bindings s₁ es₁ hbindings) fun pm s₂ es₂ _ hloads => ?_
    dsimp only
    cases header.namespace? with
    | some n => exact nameModule n hloads.loaded
    | none => exact merge hloads header.front

/-- **A module that is forwarded** leaves its members in the stylesheet. -/
theorem forward {header : LoadHeader} (hh : header.Plain) :
    S.Goes Any (Render.forward (·.eval S.host caller) loader header)
      (Render.forward (Noted.evaluate S.notes (Journal.host S.host) caller') loader' header) s es := by
  unfold Render.forward
  cases header.libraryName? with
  | some library => exact reading (libraryOf header.url library) fun l _ => useFlat l
  | none =>
    exact bind (configure callers hh) fun bindings s₁ es₁ _ hbindings =>
      bind (hl.moduleOf header.url bindings s₁ es₁ hbindings) fun pm s₂ es₂ _ hloads =>
        merge hloads header.front

end

/-! ### Statements -/

section

variable [Log.Sink σ]

mutual

/-- **A statement** without compound literals goes along. -/
theorem exec (callers : S.Callers caller caller') {place : Place σ}
    {place' : Place (Traced Entry σ)} (hp : S.Places place place') {stmt : Stmt}
    (hstmt : stmt.Plain) (s : State σ) (es : Journal) :
    S.Goes S.Returns (stmt.exec S.host S.limits caller place)
      (Noted.exec S.notes (Journal.host S.host) S.limits caller' place' stmt) s es := by
  match stmt, hstmt with
  | .inert, _ => exact ret nofun
  | .declare name e isDefault isGlobal, .declare _ _ _ he =>
    exact silent (declare callers he name isDefault isGlobal)
  | .rule body, .rule hbody =>
    rw [Stmt.exec, Noted.exec, hp.isFunction_eq]
    split
    · exact fail
    · exact inScope Table.all_empty fun s es => execAll callers hp hbody s es
  | .scoped keyword body, .scoped _ hbody =>
    rw [Stmt.exec, Noted.exec, hp.isFunction_eq]
    split
    · exact fail
    · exact inScope Table.all_empty fun s es => execAll callers hp hbody s es
  | .choose links otherwise, .choose hconditions hbodies hotherwise =>
    rw [Stmt.exec, Noted.exec]
    exact execLinks callers hp (fun s es => execAll callers hp hotherwise s es) hconditions hbodies
      s es
  | .strayElse, _ => exact fail
  | .each header body, .each hheader hbody =>
    rw [Stmt.exec, Noted.exec]
    refine reading (ofFault hheader) fun each heach => ?_
    refine bind (eval callers heach s es) fun list s₁ es₁ _ hlist => ?_
    refine forEach (fun element s₂ es₂ helement => ?_) ((S.knows_closed es₁).elements hlist)
    refine inScope (all_eachFrame (S.knows_closed es₂) each.names helement) fun s₃ es₃ => ?_
    exact looking fun es₄ _ => execAll callers hp.inner hbody s₃ es₄
  | .for header body, .for hheader hbody =>
    rw [Stmt.exec, Noted.exec]
    refine reading (ofFault hheader) fun for_ hbounds => ?_
    refine bind (eval callers hbounds.first s es) fun first s₁ es₁ _ _ =>
      reading (integer first) fun _ _ => ?_
    refine bind (eval callers hbounds.last s₁ es₁) fun last s₂ es₂ _ _ =>
      reading (integer last) fun _ _ => countTo _ _ _ fun index s₃ es₃ => ?_
    refine inScope (Table.all_empty.insert _ ((S.knows_closed es₃).scalar rfl)) fun s₄ es₄ => ?_
    exact looking fun es₅ _ => execAll callers hp.inner hbody s₄ es₅
  | .while condition body, .while hcondition hbody =>
    rw [Stmt.exec, Noted.exec]
    exact whileHolds (eval callers hcondition)
      (fun s es => inScope Table.all_empty fun s es =>
        looking fun es' _ => execAll callers hp.inner hbody s es')
      (Nat.zero_add _) S.rounds_lt_clock
  | .report what e, .report _ he =>
    exact bind (eval callers he s es) fun v s₁ es₁ _ _ =>
      bind (reportValue what v) fun _ _ _ _ _ => ret nofun
  | .return e, .return he =>
    -- no statement stands inside, so there is nothing more to enter
    change S.Goes S.Returns _
      (Stmt.exec (Journal.host S.host) S.limits caller' place' (.return e)) s es
    rw [Stmt.exec, Stmt.exec, hp.isFunction_eq]
    split
    · refine bind (eval callers he s es) fun v s₁ es₁ _ hv => ret fun w hw => ?_
      cases hw
      exact hv
    · exact fail
  | .function signature body, .function hsignature hbody =>
    change S.Goes S.Returns _
      (Stmt.exec (Journal.host S.host) S.limits caller' place' (.function signature body)) s es
    rw [Stmt.exec, Stmt.exec, hp.isFunction_eq]
    split
    · exact fail
    · refine reading (ofFault hsignature) fun sig hparameters => ?_
      exact bind (declareFunction hparameters hbody) fun _ _ _ _ _ => ret nofun
  | .imports urls, _ =>
    -- only the top of a stylesheet has a loader, and everywhere else both fail
    cases hp with
    | top hl => exact silent (importAll hl urls)
    | loop => exact fail
    | function => exact fail
  | .load what header, .load _ hheader =>
    cases hp with
    | top hl =>
      rw [Stmt.exec, Noted.exec]
      refine reading (ofFault hheader) fun rule hrule => ?_
      cases what with
      | use => exact silent (use callers hl hrule)
      | forward => exact silent (forward callers hl hrule)
    | loop => exact fail
    | function => exact fail
  | .other keyword, _ =>
    change S.Goes S.Returns _
      (Stmt.exec (Journal.host S.host) S.limits caller' place' (.other keyword)) s es
    rw [Stmt.exec, Stmt.exec, hp.isFunction_eq]
    split
    · exact fail
    · exact silent (report _ _)

/-- **Statements** go along, with the state before and behind each entered. -/
theorem execAll (callers : S.Callers caller caller') {place : Place σ}
    {place' : Place (Traced Entry σ)} (hp : S.Places place place') {body : List Stmt}
    (hbody : ∀ stmt ∈ body, stmt.Plain) (s : State σ) (es : Journal) :
    S.Goes S.Returns (Stmt.execAll S.host S.limits caller place body)
      (Noted.execAll S.notes (Journal.host S.host) S.limits caller' place' body) s es := by
  match body with
  | [] => exact ret nofun
  | stmt :: rest =>
    rw [List.forall_mem_cons] at hbody
    rw [Stmt.execAll, Noted.execAll]
    -- the states before and behind a statement are entered, and what is known goes on behind them
    refine looking fun es₁ _ => bind (exec callers hp hbody.1 s es₁) fun r s₂ es₂ _ hr => ?_
    refine looking fun es₃ hl => ?_
    cases r with
    | some v => exact ret fun w hw => (hr w hw).later hl.journal
    | none => exact execAll callers hp hbody.2 s₂ es₃

theorem execLinks (callers : S.Callers caller caller') {place : Place σ}
    {place' : Place (Traced Entry σ)} (hp : S.Places place place')
    {otherwise : Render σ (Option Value)} {otherwise' : Journal.Step σ (Option Value)}
    (ho : ∀ s es, S.Goes S.Returns otherwise otherwise' s es) {links : List (Expr × List Stmt)}
    (hconditions : ∀ l ∈ links, l.1.Plain) (hbodies : ∀ l ∈ links, ∀ stmt ∈ l.2, stmt.Plain)
    (s : State σ) (es : Journal) :
    S.Goes S.Returns (Stmt.execLinks S.host S.limits caller place otherwise links)
      (Noted.execLinks S.notes (Journal.host S.host) S.limits caller' place' otherwise' links)
      s es := by
  match links with
  | [] => exact ho s es
  | (condition, body) :: links =>
    rw [List.forall_mem_cons] at hconditions hbodies
    rw [Stmt.execLinks, Noted.execLinks]
    refine bind (eval callers hconditions.1 s es) fun v s₁ es₁ _ _ => ?_
    split
    · exact execAll callers hp hbodies.1 s₁ es₁
    · exact execLinks callers hp ho hconditions.2 hbodies.2 s₁ es₁

end

end

end Goes
end Setting
end Stylesheet
