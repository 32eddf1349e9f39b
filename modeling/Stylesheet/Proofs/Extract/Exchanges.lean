import Stylesheet.Proofs.Extract.Dependencies

/-!
# What engines exchange with an extraction

An engine reaches an extraction by what it asks for: imports, and calls of the export function. In
between it may look files up, report, and do what it likes with the answers, also with the failures
among them. What an extraction collects is told by these exchanges alone.

* `Dialogue`: an engine, as what it asks for one after the other.
* `Conversation`: the exchanges that lead from one state of a host to another.
* `render_conversation`: the rendering of a stylesheet is a conversation.
* `Extraction.tells_of_conversation`: what an extraction has collected behind a conversation.
* `Extraction.reflects_exchanges`: an extraction by any engine.
-/

namespace Stylesheet

open Render Export

variable {σ : Type}

/-! ### Exchanges -/

/-- What an engine asked for, and what it was answered. -/
inductive Exchange where
  | imported (url : String) (origin : Origin) (answer : Except String Path)
  /-- A call under some name, answered if the host has a function of this name. -/
  | called (name : String) (args : List Value) (answer : Option (Except String Value))

/-- Call a function of the host, if there is one. -/
def Host.call (host : Host σ) (name : String) (args : List Value) :
    StateM σ (Option (Except String Value)) := do
  match host.functions.function? name with
  | none => return none
  | some f => return some (← f args)

/-- What an engine finds out about a host without asking. -/
structure Offer where
  read : Path → Except ReadFault String
  /-- Whether there is a function of a name. -/
  has : String → Bool
  /-- How many functions there are. -/
  count : Nat

def Host.offer (host : Host σ) : Offer where
  read := host.read
  has name := (host.functions.function? name).isSome
  count := host.functions.size

variable [Log.Sink σ]

/-- **The exchanges** that lead from one state of a host to another, with reports in between. -/
inductive Conversation (host : Host σ) : σ → List Exchange → σ → Prop
  | silent (g : σ) : Conversation host g [] g
  | report {g g' : σ} {xs : List Exchange} (r : Log.Record)
      (rest : Conversation host (Log.Sink.write r g) xs g') : Conversation host g xs g'
  | imported {url : String} {origin : Origin} {answer : Except String Path} {g g' g'' : σ}
      {xs : List Exchange} (asked : host.importer url origin g = (answer, g'))
      (rest : Conversation host g' xs g'') :
      Conversation host g (.imported url origin answer :: xs) g''
  | called {name : String} {args : List Value} {answer : Option (Except String Value)}
      {g g' g'' : σ} {xs : List Exchange} (asked : host.call name args g = (answer, g'))
      (rest : Conversation host g' xs g'') :
      Conversation host g (.called name args answer :: xs) g''

theorem Conversation.trans {host : Host σ} {g g' g'' : σ} {xs ys : List Exchange}
    (h : Conversation host g xs g') (h' : Conversation host g' ys g'') :
    Conversation host g (xs ++ ys) g'' := by
  induction h with
  | silent g => exact h'
  | report r _ ih => exact .report r (ih h')
  | imported asked _ ih => exact .imported asked (ih h')
  | called asked _ ih => exact .called asked (ih h')

/-! ### Engines -/

/-- **An engine at work:** it ends, or it asks for something and goes on as it likes with the
answer. Calls of functions that the engine has by itself are its own affair. -/
inductive Dialogue where
  | ends (result : Except RenderError Unit)
  | report (r : Log.Record) (next : Dialogue)
  | imports (url : String) (origin : Origin) (next : Except String Path → Dialogue)
  | call (name : String) (args : List Value) (next : Option (Except String Value) → Dialogue)

namespace Dialogue

variable (host : Host σ)

/-- Have a dialogue with a host: the exchanges, and the result. -/
def run : Dialogue → StateM σ (List Exchange × Except RenderError Unit)
  | ends result => return ([], result)
  | report r next => do
      modify (Log.Sink.write r)
      next.run
  | imports url origin next => do
      let answer ← host.importer url origin
      let (xs, result) ← (next answer).run
      return (.imported url origin answer :: xs, result)
  | call name args next => do
      let answer ← host.call name args
      let (xs, result) ← (next answer).run
      return (.called name args answer :: xs, result)

/-- The engine that has a dialogue about each source. -/
def engine (d : Offer → String → Dialogue) : Engine σ := fun host source => do
  let (_, result) ← (d host.offer source).run host
  return result

/-- A dialogue is a conversation. -/
theorem conversation (d : Dialogue) (g : σ) :
    Conversation host g (d.run host g).1.1 (d.run host g).2 := by
  induction d generalizing g with
  | ends result => exact .silent g
  | report r next ih => exact .report r (ih (Log.Sink.write r g))
  | imports url origin next ih => exact .imported rfl (ih _ _)
  | call name args next ih => exact .called rfl (ih _ _)

theorem engine_eq (d : Offer → String → Dialogue) (source : String) (g : σ) :
    engine d host source g =
      (((d host.offer source).run host g).1.2, ((d host.offer source).run host g).2) := rfl

end Dialogue

/-! ### The rendering of a stylesheet -/

namespace Render

variable (host : Host σ)

/-- A step whose host is left behind a conversation, whether the step fails or not. -/
def Converses {α : Type} (Q : α → Prop) (act : Render σ α) : Prop :=
  ∀ s, (∃ xs, Conversation host s.host xs (act.run s).2.host) ∧
    ∀ a s', act.run s = (.ok a, s') → Q a

variable {host}

theorem Converses.of_same {α : Type} {Q : α → Prop} {act : Render σ α}
    (hhost : ∀ s, (act.run s).2.host = s.host) (hQ : ∀ s a s', act.run s = (.ok a, s') → Q a) :
    Converses host Q act := fun s => ⟨⟨[], by rw [hhost s]; exact .silent _⟩, hQ s⟩

theorem Converses.seq {α β : Type} {P : α → Prop} {Q : β → Prop} {act : Render σ α}
    {next : α → Render σ β} (h : Converses host P act) (hn : ∀ a, P a → Converses host Q (next a)) :
    Converses host Q (act >>= next) := by
  intro s
  obtain ⟨⟨xs, hxs⟩, hP⟩ := h s
  rw [run_bind]
  rcases hs : act.run s with ⟨_ | a, s'⟩
  · rw [hs] at hxs
    exact ⟨⟨xs, hxs⟩, nofun⟩
  · rw [hs] at hxs
    obtain ⟨⟨ys, hys⟩, hQ⟩ := hn a (hP a s' hs) s'
    exact ⟨⟨xs ++ ys, hxs.trans hys⟩, hQ⟩

/-- A step of a host that is part of a conversation. -/
theorem Converses.ofHost {α : Type} {step : StateM σ α}
    (h : ∀ g, ∃ xs, Conversation host g xs (step g).2) :
    Converses host (fun _ => True) (ofHost step) := fun s => ⟨h s.host, fun _ _ _ => trivial⟩

/-- Renderings compare by the conversations with the host. -/
def conversing (host : Host σ) : Comparison σ σ where
  ok _ := True
  Rel Q act _ := Converses host Q act
  weaken h hQ s := ⟨(h s).1, fun a s' hs => hQ a ((h s).2 a s' hs)⟩
  ret ha := .of_same (fun _ => rfl) fun s b s' hs => (run_pure_eq_ok.1 hs).1 ▸ ha
  fail e := .of_same (fun _ => rfl) nofun
  seq := Converses.seq
  sheet := .of_same (fun _ => rfl) fun _ _ _ _ _ _ _ _ => trivial
  module? p := .of_same (fun _ => rfl) fun _ _ _ _ _ _ _ _ _ _ => trivial
  modifySheet _ := .of_same (fun _ => rfl) fun _ _ _ _ => trivial
  around {_ _ _ _ enter _} _ _ h s := by
    have hinner := h { s with sheet := enter s.sheet }
    refine ⟨hinner.1, fun a s' hs => ?_⟩
    obtain ⟨inner, hi, -⟩ := run_around_eq_ok.1 hs
    exact hinner.2 a inner hi
  report _ _ := .ofHost fun g => ⟨[], .report _ (.silent _)⟩

theorem conversing_answers : (conversing host).Answers host host := by
  intro name _
  cases hf : host.functions.function? name with
  | none => exact .inl ⟨rfl, rfl⟩
  | some f =>
    refine .inr ⟨f, f, rfl, rfl, fun args => .ofHost fun g => ?_⟩
    have hcall : host.call name args g = (some (f args g).1, (f args g).2) := by
      unfold Host.call
      rw [hf]
      rfl
    exact ⟨_, .called hcall (.silent _)⟩

theorem conversing_hosts : (conversing host).Hosts host host where
  answers := conversing_answers
  read := rfl
  resolve origin url := by
    refine Converses.seq (P := fun _ => True)
      (.ofHost fun g => ⟨_, .imported rfl (.silent _)⟩) fun r _ => ?_
    cases r with
    | ok p => exact (conversing host).ret fun _ _ _ _ _ _ => trivial
    | error message => exact (conversing host).fail _

theorem conversing_keep : (conversing host).Keeps := fun _ _ _ =>
  .of_same (fun _ => rfl) fun _ _ _ _ => trivial

end Render

/-- **A rendering is a conversation** with its host. -/
theorem render_conversation (limits : Limits) (host : Host σ) (source : String) (g : σ) :
    ∃ xs, Conversation host g xs (render limits host source g).2 := by
  unfold render
  cases hparse : parse source with
  | error e =>
    unfold renderBy
    rw [hparse]
    exact ⟨[], .silent g⟩
  | ok tree =>
    rw [renderBy_of_parse g hparse]
    have hhosts : (conversing host).Hosts host host := conversing_hosts
    have hfile := hhosts.runFile limits conversing_keep limits.imports .entry (Stmt.ofTree tree)
      fun _ _ => trivial
    exact (hfile (entryState g)).1

namespace Extraction

/-! ### What is collected -/

/-- What a call of the export function is answered: the second argument, or a list with commas of
all arguments behind the first. -/
def reply : List Value → Except String Value
  | [_, value] => .ok value
  | _ :: second :: third :: more => .ok (.list (second :: third :: more) .comma)
  | args => .error ("expected a name and a value, got " ++ toString args.length ++ " arguments")

/-- A variable, unless neither its name nor its value has a plain form. -/
def recordOf (name value : Value) : Option Exported :=
  if (Plain.ofValue name).isUndefined && (Plain.ofValue value).isUndefined then none
  else some ⟨.ofValue name, .ofValue value⟩

/-- What a call of the export function exports. -/
def recordOfCall (args : List Value) : Option Exported :=
  match args, reply args with
  | name :: _, .ok value => recordOf name value
  | _, _ => none

end Extraction

namespace Exchange

open Extraction

/-- What is exported by it, if it is a call of the export function under any spelling. -/
def exported? (function : String) : Exchange → Option Exported
  | imported _ _ _ => none
  | called name args _ =>
      if Name.ofString name = .ofString function then recordOfCall args else none

/-- The file that is found by it. -/
def found? : Exchange → Option Path
  | imported _ _ (.ok p) => some p
  | _ => none

/-- Whether a call is answered as it must be: by the export function, and by nothing else. -/
def Answered (function : String) : Exchange → Prop
  | imported _ _ _ => True
  | called name args answer =>
      answer = if Name.ofString name = .ofString function then some (reply args) else none

end Exchange

namespace Extraction

variable {function : String} {entry : Path} {read : Path → Except ReadFault String}
  {resolve : Import.Resolver σ}

/-- **The export function** gives its reply, and exports what the call exports. Nothing is found by
it. -/
theorem hook_eq_reply (args : List Value) (c : Collected σ) :
    (hook args c).1 = reply args ∧
      (hook args c).2.exported = (recordOfCall args).toList ++ c.exported ∧
      (hook args c).2.imports.found = c.imports.found := by
  have kept (name value : Value) (hvalue : exportedValue? args = some (name, value)) :
      (hook args c).1 = .ok value ∧
        (hook args c).2.exported = (recordOf name value).toList ++ c.exported := by
    unfold hook recordOf
    rw [hvalue]
    dsimp only
    split
    · exact ⟨rfl, rfl⟩
    · exact ⟨rfl, rfl⟩
  have refused (hnone : exportedValue? args = none) :
      (hook args c).1 =
          .error ("expected a name and a value, got " ++ toString args.length ++ " arguments") ∧
        (hook args c).2.exported = c.exported := by
    unfold hook
    rw [hnone]
    exact ⟨rfl, rfl⟩
  match args with
  | [] => exact ⟨(refused rfl).1, (refused rfl).2, hook_imports _ c⟩
  | [_] => exact ⟨(refused rfl).1, (refused rfl).2, hook_imports _ c⟩
  | [_, _] => exact ⟨(kept _ _ rfl).1, (kept _ _ rfl).2, hook_imports _ c⟩
  | _ :: _ :: _ :: _ => exact ⟨(kept _ _ rfl).1, (kept _ _ rfl).2, hook_imports _ c⟩

/-- A call of the host of an extraction. -/
theorem call_host (name : String) (args : List Value) (c : Collected σ) :
    (host function entry read resolve).call name args c =
      if Name.ofString name = .ofString function then (some (hook args c).1, (hook args c).2)
      else (none, c) := by
  unfold Host.call
  rw [function?_host]
  by_cases hname : Name.ofString name = .ofString function
  · rw [if_pos hname, if_pos hname]
    rfl
  · rw [if_neg hname, if_neg hname]
    rfl

/-- **What is told by exchanges** of what an extraction collects from one state to another. -/
structure Tells (function : String) (xs : List Exchange) (c c' : Collected σ) : Prop where
  exported : c'.exported = (xs.filterMap (Exchange.exported? function)).reverse ++ c.exported
  found : c'.imports.found = (xs.filterMap Exchange.found?).reverse ++ c.imports.found
  answered : ∀ x ∈ xs, x.Answered function

omit [Log.Sink σ] in
theorem Tells.cons {x : Exchange} {xs : List Exchange} {c c' c'' : Collected σ}
    (h : Tells function xs c' c'') (hx : x.Answered function)
    (hexported : c'.exported = (x.exported? function).toList ++ c.exported)
    (hfound : c'.imports.found = x.found?.toList ++ c.imports.found) :
    Tells function (x :: xs) c c'' where
  exported := by
    rw [h.exported, hexported, List.filterMap_cons]
    cases x.exported? function <;> simp
  found := by
    rw [h.found, hfound, List.filterMap_cons]
    cases x.found? <;> simp
  answered := List.forall_mem_cons.2 ⟨hx, h.answered⟩

/-- An import keeps the file that it finds, and a failed one keeps nothing. -/
theorem importer_tells {url : String} {origin : Origin} {answer : Except String Path}
    {c c' c'' : Collected σ} {xs : List Exchange}
    (asked : (host function entry read resolve).importer url origin c = (answer, c'))
    (h : Tells function xs c' c'') :
    Tells function (.imported url origin answer :: xs) c c'' := by
  have hlift : (host function entry read resolve).importer url origin c =
      ((Import.importer entry resolve url origin c.imports).1,
        { c with imports := (Import.importer entry resolve url origin c.imports).2 }) := rfl
  rw [hlift] at asked
  obtain ⟨rfl, rfl⟩ := Prod.mk.inj asked
  refine h.cons trivial rfl ?_
  dsimp only
  rw [Import.importer_found]
  cases (Import.importer entry resolve url origin c.imports).1 with
  | ok p => rfl
  | error message => rfl

/-- A call of the export function keeps what it exports, and another call finds nobody. -/
theorem call_tells {name : String} {args : List Value} {answer : Option (Except String Value)}
    {c c' c'' : Collected σ} {xs : List Exchange}
    (asked : (host function entry read resolve).call name args c = (answer, c'))
    (h : Tells function xs c' c'') :
    Tells function (.called name args answer :: xs) c c'' := by
  rw [call_host] at asked
  obtain ⟨hreply, hexported, hfound⟩ := hook_eq_reply args c
  by_cases hname : Name.ofString name = .ofString function
  · rw [if_pos hname, hreply] at asked
    obtain ⟨rfl, rfl⟩ := Prod.mk.inj asked
    refine h.cons (if_pos hname).symm ?_ hfound
    rw [hexported, Exchange.exported?, if_pos hname]
  · rw [if_neg hname] at asked
    obtain ⟨rfl, rfl⟩ := Prod.mk.inj asked
    refine h.cons (if_neg hname).symm ?_ rfl
    rw [Exchange.exported?, if_neg hname]
    rfl

/-- **What an extraction collects** is told by the exchanges. -/
theorem tells_of_conversation {xs : List Exchange} {c c' : Collected σ}
    (h : Conversation (host function entry read resolve) c xs c') : Tells function xs c c' := by
  induction h with
  | silent c => exact ⟨rfl, rfl, nofun⟩
  | report r _ ih => exact ⟨ih.exported, ih.found, ih.answered⟩
  | imported asked _ ih => exact importer_tells asked ih
  | called asked _ ih => exact call_tells asked ih

omit [Log.Sink σ] in
/-- From the start on, the exchanges tell the whole extraction. -/
theorem Tells.extraction {xs : List Exchange} {g : σ} {c : Collected σ}
    (h : Tells function xs (.start g) c) :
    c.extraction = ⟨xs.filterMap (Exchange.exported? function), xs.filterMap Exchange.found?⟩ := by
  have hexported : c.exported = (xs.filterMap (Exchange.exported? function)).reverse :=
    h.exported.trans (List.append_nil _)
  have hfound : c.imports.found = (xs.filterMap Exchange.found?).reverse :=
    h.found.trans (List.append_nil _)
  unfold Collected.extraction Import.Tracked.dependencies
  rw [hexported, hfound, List.reverse_reverse, List.reverse_reverse]

/-! ### Extractions by any engine -/

/-- The extraction that the exchanges tell, if the rendering succeeds. -/
def told (function : String) (xs : List Exchange) :
    Except RenderError Unit → Except Error Extraction
  | .error e => .error (.render e)
  | .ok () => .ok ⟨xs.filterMap (Exchange.exported? function), xs.filterMap Exchange.found?⟩

/-- What an extraction gives behind a rendering that is a conversation. -/
theorem told_of_conversation {xs : List Exchange} {g : σ} {c : Collected σ}
    (ending : Except RenderError Unit)
    (h : Conversation (host function entry read resolve) (.start g) xs c) :
    (match (ending, c) with
      | (.error e, c) => ((.error (.render e), c.imports.inner) : Except Error Extraction × σ)
      | (.ok (), c) =>
          (.ok c.extraction, Log.Sink.write (endRecord entry c.extraction) c.imports.inner)).1 =
        told function xs ending ∧ ∀ x ∈ xs, x.Answered function := by
  have htells := tells_of_conversation h
  refine ⟨?_, htells.answered⟩
  cases ending with
  | error e => rfl
  | ok u => exact congrArg Except.ok htells.extraction

/-- **An extraction reflects the exchanges** of its engine, whatever engine it is: there is one
record for every call of the export function with a name and a value, unless neither has a plain
form, and one file for every import that finds one, all in order. Every call is answered as it must
be. If the rendering fails, so does the extraction, and if the source does not parse or its
declarations cannot be wrapped, there is no rendering. -/
theorem reflects_exchanges (d : Offer → String → Dialogue) (function : String) (entry : Path)
    (read : Path → Except ReadFault String) (resolve : Import.Resolver σ) (source : String) (g : σ) :
    let result := (extract (Dialogue.engine d) function entry read resolve source g).1
    match parse source with
    | .error e => result = .error (.parse e)
    | .ok tree =>
        match (wrapDeclarations function tree).result with
        | .error e => result = .error (.wrap e)
        | .ok _ =>
            let host := host function entry read resolve
            let dialogue := d host.offer (wrapDeclarations function tree).tree.print
            let (xs, ending) :=
              (dialogue.run host (.start (engineState function entry tree g))).1
            result = told function xs ending ∧ ∀ x ∈ xs, x.Answered function := by
  dsimp only
  cases hparse : parse source with
  | error e =>
    unfold extract
    rw [hparse]
    rfl
  | ok tree =>
    dsimp only
    cases hwrap : (wrapDeclarations function tree).result with
    | error e =>
      unfold extract
      rw [hparse]
      dsimp only
      rw [hwrap]
      rfl
    | ok n =>
      dsimp only
      rw [extract_eq hparse hwrap, collect_eq, Dialogue.engine_eq]
      exact told_of_conversation _ (Dialogue.conversation _ _ _)

/-- An extraction by the rendering of stylesheets reflects what that exchanges. -/
theorem reflects_rendering {limits : Limits} {source : String} {tree : Node} {n : Nat}
    (hparse : parse source = .ok tree) (hwrap : (wrapDeclarations function tree).result = .ok n)
    (g : σ) :
    let host := host function entry read resolve
    let start : Collected σ := .start (engineState function entry tree g)
    let ending := render limits host (wrapDeclarations function tree).tree.print start
    ∃ xs, Conversation host start xs ending.2 ∧
      (extract (render limits) function entry read resolve source g).1 =
        told function xs ending.1 ∧
      ∀ x ∈ xs, x.Answered function := by
  dsimp only
  obtain ⟨xs, hxs⟩ := render_conversation limits (host function entry read resolve)
    (wrapDeclarations function tree).tree.print (.start (engineState function entry tree g))
  refine ⟨xs, hxs, ?_⟩
  rw [extract_eq hparse hwrap, collect_eq]
  exact told_of_conversation _ hxs

end Extraction
end Stylesheet
