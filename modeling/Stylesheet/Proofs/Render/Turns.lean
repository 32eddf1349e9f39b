import Stylesheet.Proofs.Render.LedgerFiles
import Stylesheet.Proofs.Render.Runs

/-!
# Renderings with their turns

The turns of a rendering are noted as it takes them. At every moment the stylesheet that is running
and the modules are as the situation says: the stylesheet has the path and the namespaces of the run
in force, every module those of the run that is kept as it, and a function that is in reach was
declared by an earlier turn, with the path of the run that declared it.

* `Turn.notes`: the notes of turns.
* `Turn.Fits`: a state that is as the situation behind a history says.
* `Turn.ledger`, `Turn.calling`: every step of a rendering keeps it so.
-/

namespace Stylesheet

open Render

namespace Turn

variable {σ α : Type}

/-! ### Notes -/

/-- Note the namespaces that are in force. -/
def look : Render (Traced Turn σ) Unit := do
  let s ← sheet
  Traced.note (passed s.namespaces)

/-- Note where a step starts and ends, whether it fails or not. -/
def during (e : Turn) (act : Render (Traced Turn σ) α) : Render (Traced Turn σ) α := do
  Traced.note e
  Traced.closing (fun _ => ends) act

/-- **The notes of turns.** -/
def notes : Notes (Traced Turn σ) where
  before := look
  behind := look
  default := look
  start := look
  declaring s body := Traced.note (declares s.parameters body)
  load := Traced.closing fun s => loads s.namespaces
  call f _ := during (calls f)
  imported := during imports
  loaded p := during (opens p)
  kept p _ := Traced.note (keeps p)

/-! ### States and situations -/

/-- What holds of a turn where it is taken: namespaces in force are those of the run in force, a
function that is called is in reach, and a file that declares a function runs in its own name. -/
def Legal (ts : List Turn) : Turn → Prop
  | passed own => own = (situation ts).own (situation ts).inForce.number
  | calls f => InReach ts (situation ts).inForce.path f ∧ ((situation ts).home f).Proper ts
  | declares _ _ => (situation ts).inForce.Proper ts
  | _ => True

/-- Every turn of a history was legal where it was taken. -/
def Sound (ts : List Turn) : Prop := ∀ e us, e :: us <:+ ts → Legal us e

/-- A stylesheet is that of the run in force. -/
structure FitsSheet (ts : List Turn) (sheet : Sheet) : Prop where
  path : sheet.path = (situation ts).inForce.path
  namespaces : sheet.namespaces = (situation ts).own (situation ts).inForce.number
  functions : sheet.functions.All (InReach ts sheet.path)
  proper : (situation ts).inForce.Proper ts

/-- The modules are those of the runs that are kept. -/
structure FitsModules (ts : List Turn) (modules : Table Path Module) : Prop where
  kept : ∀ p, (modules.find? p).map (·.namespaces) =
    ((situation ts).kept.find? p).map (situation ts).own
  functions : modules.All fun m => ∀ path, m.functions.All (InReach ts path)
  opened : ∀ p n, (situation ts).kept.find? p = some n → Opened ts p n

/-- **A state is as the situation behind a sound history says.** -/
structure Fits (ts : List Turn) (s : State σ) : Prop where
  sheet : FitsSheet ts s.sheet
  modules : FitsModules ts s.modules
  sound : Sound ts

variable {ts ts' ds : List Turn} {e : Turn} {s s' : State σ}

theorem Sound.cons (h : Sound ts) (he : Legal ts e) : Sound (e :: ts) := by
  intro e' us hus
  rcases List.suffix_cons_iff.1 hus with hu | hu
  · cases hu
    exact he
  · exact h e' us hu

/-- A stylesheet is still that of the run in force, if it still has its namespaces. -/
theorem FitsSheet.later {sheet : Sheet} (h : FitsSheet ts sheet) (ht : ts <:+ ts')
    (hin : (situation ts').inForce = (situation ts).inForce)
    (hown : (situation ts').own (situation ts).inForce.number =
      (situation ts).own (situation ts).inForce.number) : FitsSheet ts' sheet where
  path := by rw [h.path, hin]
  namespaces := by rw [h.namespaces, hin, hown]
  functions := h.functions.imp fun _ hf => hf.later ht
  proper := by
    rw [hin]
    exact h.proper.later ht

theorem FitsModules.later {modules : Table Path Module} (h : FitsModules ts modules)
    (ht : ts <:+ ts') (hkept : (situation ts').kept = (situation ts).kept)
    (hown : ∀ p n, (situation ts).kept.find? p = some n →
      (situation ts').own n = (situation ts).own n) : FitsModules ts' modules where
  kept p := by
    rw [h.kept p, hkept]
    cases hn : (situation ts).kept.find? p with
    | none => rfl
    | some n => exact congrArg some (hown p n hn).symm
  functions := h.functions.imp fun _ hm path => (hm path).imp fun _ hf => hf.later ht
  opened p n hn := (h.opened p n (hkept ▸ hn)).later ht

/-- A module that is loaded is that of a run that is kept. -/
theorem FitsModules.exists_kept {modules : Table Path Module} (h : FitsModules ts modules) {p : Path}
    {m : Module} (hm : modules.find? p = some m) :
    ∃ n, (situation ts).kept.find? p = some n ∧ m.namespaces = (situation ts).own n := by
  have hkept := h.kept p
  rw [hm] at hkept
  obtain ⟨n, hn, heq⟩ := Option.map_eq_some_iff.1 hkept.symm
  exact ⟨n, hn, heq.symm⟩

/-- A turn that changes nothing. -/
theorem Fits.cons (h : Fits ts s) (he : Legal ts e) (hs : situation (e :: ts) = situation ts) :
    Fits (e :: ts) s where
  sheet := h.sheet.later (List.suffix_cons e ts) (by rw [hs]) (by rw [hs])
  modules := h.modules.later (List.suffix_cons e ts) (by rw [hs]) fun _ _ _ => by rw [hs]
  sound := h.sound.cons he

/-- What counts of a state: all but variables and the host. -/
structure Alike (s s' : State σ) : Prop where
  path : s'.sheet.path = s.sheet.path
  namespaces : s'.sheet.namespaces = s.sheet.namespaces
  functions : s'.sheet.functions = s.sheet.functions
  modules : s'.modules = s.modules

theorem Fits.of_alike (h : Fits ts s) (ha : Alike s s') : Fits ts s' where
  sheet := {
    path := ha.path.trans h.sheet.path
    namespaces := ha.namespaces.trans h.sheet.namespaces
    functions := by
      rw [ha.functions, ha.path]
      exact h.sheet.functions
    proper := h.sheet.proper }
  modules := by
    rw [ha.modules]
    exact h.modules
  sound := h.sound

/-! ### What steps change -/

/-- **Statements keep what fits.** In functions and loops they change nothing of the situation, and
in functions nothing of what is in reach. -/
structure Ran (g : Ground) (ds : List Turn) (s s' : State σ) : Prop where
  functions : g = .function → s'.sheet.functions = s.sheet.functions
  modules : g = .function → s'.modules = s.modules
  fits : ∀ ts, Fits ts s → (g = .top → (situation ts).Apart) → Fits (ds ++ ts) s' ∧
    Leaves ts.length ts ds ∧ (g ≠ .top → situation (ds ++ ts) = situation ts)

theorem composes_ran (g : Ground) : Composes (Ran (σ := σ) g) where
  refl s := ⟨fun _ => rfl, fun _ => rfl, fun _ hs _ => ⟨hs, .of_eq rfl, fun _ => rfl⟩⟩
  trans {ds ds' s s' s''} h h' := by
    refine ⟨fun hg => (h'.functions hg).trans (h.functions hg),
      fun hg => (h'.modules hg).trans (h.modules hg), fun ts hs ha => ?_⟩
    obtain ⟨hfits, hleaves, hsame⟩ := h.fits ts hs ha
    obtain ⟨hfits', hleaves', hsame'⟩ :=
      h'.fits (ds ++ ts) hfits fun hg => hleaves.apart (ha hg)
    refine ⟨by rwa [List.append_assoc], ?_, fun hg => ?_⟩
    · exact hleaves.trans (hleaves'.mono (by rw [List.length_append]; exact Nat.le_add_left _ _))
    · rw [List.append_assoc, hsame' hg, hsame hg]

theorem Ran.of_alike {g : Ground} (ha : Alike s s') : Ran g [] s s' where
  functions _ := ha.functions
  modules _ := ha.modules
  fits _ hs _ := ⟨hs.of_alike ha, .of_eq rfl, fun _ => rfl⟩

/-- Statements at the top may change the situation. -/
theorem Ran.of_top (h : ∀ ts, Fits ts s → (situation ts).Apart →
    Fits (ds ++ ts) s' ∧ Leaves ts.length ts ds) : Ran .top ds s s' where
  functions hg := by cases hg
  modules hg := by cases hg
  fits ts hs ha := by
    obtain ⟨hfits, hleaves⟩ := h ts hs (ha rfl)
    exact ⟨hfits, hleaves, fun hg => absurd rfl hg⟩

/-- Statements in functions leave the situation as it is. -/
theorem Ran.inner (h : Ran .function ds s s') (hs : Fits ts s) :
    Fits (ds ++ ts) s' ∧ Leaves ts.length ts ds ∧ situation (ds ++ ts) = situation ts := by
  obtain ⟨hfits, hleaves, hsame⟩ := h.fits ts hs fun hg => by cases hg
  exact ⟨hfits, hleaves, hsame fun hg => by cases hg⟩

/-- Statements in functions may stand anywhere. -/
theorem Ran.of_function {g : Ground} (h : Ran .function ds s s') : Ran g ds s s' where
  functions _ := h.functions rfl
  modules _ := h.modules rfl
  fits ts hs _ := by
    obtain ⟨hfits, hleaves, hsame⟩ := h.inner hs
    exact ⟨hfits, hleaves, fun _ => hsame⟩

/-- A turn is noted that changes nothing. -/
theorem quiet {g : Ground} {note : Render (Traced Turn σ) Unit} (e : State σ → Turn)
    (hrun : ∀ s es, note.run (Traced.ofState s es) = (.ok (), Traced.ofState s (e s :: es)))
    (hlegal : ∀ s ts, Fits ts s → Legal ts (e s))
    (hsame : ∀ s ts, situation (e s :: ts) = situation ts) : Quiet (Ran g) note := by
  refine fun s es => ⟨[e s], hrun s es, ⟨fun _ => rfl, fun _ => rfl, fun ts hs _ => ?_⟩,
    fun _ _ => trivial⟩
  exact ⟨hs.cons (hlegal s ts hs) (hsame s ts), .of_eq (hsame s ts), fun _ => hsame s ts⟩

theorem quiet_look (g : Ground) : Quiet (Ran (σ := σ) g) look :=
  quiet (fun s => passed s.sheet.namespaces) (fun _ _ => rfl) (fun _ _ hs => hs.sheet.namespaces)
    fun _ _ => rfl

/-- **A function that is declared** belongs to the stylesheet that is running. -/
theorem ran_declare {g : Ground} (hg : g ≠ .function) (n : Name) (parameters : List Parameter)
    (body : List Stmt) (host : σ) :
    Ran g [declares parameters body] s { s with
      sheet := { s.sheet with
        functions := s.sheet.functions.insert n ⟨parameters, body, s.sheet.path⟩ }
      host := host } where
  functions h := absurd h hg
  modules _ := rfl
  fits ts hs _ := by
    have hnext : Fits (declares parameters body :: ts) s := hs.cons hs.sheet.proper rfl
    refine ⟨⟨⟨hnext.sheet.path, hnext.sheet.namespaces, ?_, hnext.sheet.proper⟩, hnext.modules,
      hnext.sound⟩, .of_eq rfl, fun _ => rfl⟩
    refine hnext.sheet.functions.insert n ⟨⟨ts, List.suffix_refl _, hs.sheet.path⟩, id, ?_⟩
    exact fun p hp => .inl hp

/-- **A rule that loads a module** gives the run in force its namespaces. -/
theorem ran_load (h : Taken (Ran .top) ds s s') :
    Ran .top (loads s'.sheet.namespaces :: ds) s s' := by
  refine .of_top fun ts hs ha => ?_
  obtain ⟨s₁, hran, htaken⟩ := h
  obtain ⟨hfits, hleaves, -⟩ := hran.fits ts hs fun _ => ha
  have hapart := hleaves.apart ha
  have hlater : ds ++ ts <:+ loads s'.sheet.namespaces :: (ds ++ ts) := List.suffix_cons _ _
  -- only the run in force gets namespaces, and it is kept as no module yet
  have hmodules : FitsModules (loads s'.sheet.namespaces :: (ds ++ ts)) s₁.modules := by
    refine hfits.modules.later hlater rfl fun p n hn => Function.update_of_ne ?_ _ _
    exact (hapart _ List.mem_cons_self p n hn).symm
  -- whatever the rule does, it takes functions from modules, and leaves the path and the modules
  have htake : s'.sheet.path = s₁.sheet.path ∧ s'.modules = s₁.modules ∧
      s'.sheet.functions.All (InReach (ds ++ ts) s₁.sheet.path) := by
    rcases htaken with rfl | htaking
    · exact ⟨rfl, rfl, hfits.sheet.functions⟩
    · cases htaking with
      | flat l => exact ⟨rfl, rfl, hfits.sheet.functions⟩
      | named n _ => exact ⟨rfl, rfl, hfits.sheet.functions⟩
      | @merged p m front hm =>
        refine ⟨rfl, rfl, Table.All.insertAll hfits.sheet.functions fun e he => ?_⟩
        obtain ⟨x, hx, rfl⟩ := List.mem_map.1 he
        exact hfits.modules.functions.find? hm _ x hx
  obtain ⟨hpath, hmods, hfunctions⟩ := htake
  refine ⟨⟨⟨hpath.trans hfits.sheet.path, ?_, ?_, hfits.sheet.proper.later hlater⟩, ?_,
    hfits.sound.cons trivial⟩, hleaves.trans (.loads _)⟩
  · exact (own_loads (ds ++ ts) _).symm
  · rw [hpath]
    exact hfunctions.imp fun _ hf => hf.later hlater
  · rw [hmods]
    exact hmodules

/-- A function is in reach of a state. -/
def Known (s : State σ) (f : UserFunction) : Prop :=
  (∃ n, (n, f) ∈ s.sheet.functions.entries) ∨
    ∃ p m n, s.modules.find? p = some m ∧ (n, f) ∈ m.functions.entries

/-! ### Calls -/

theorem accounts_during {R R' : Change Turn σ} {Q : α → Prop} {act : Render σ α}
    {act' : Render (Traced Turn σ) α} (h : Accounts R Q act act')
    (hR : ∀ {ds s s'}, R ds s s' → R' (ends :: (ds ++ [e])) s s') :
    Accounts R' Q act (during e act') := by
  have closed : Accounts (fun ds s s' => R' (ds ++ [e]) s s') Q act
      (Traced.closing (fun _ => ends) act') := h.closing hR
  exact closed.opening id

/-- What is called is in reach, and a call goes back to a run of its file. -/
theorem Fits.legal_calls (h : Fits ts s) {f : UserFunction} (hf : Known s f) :
    Legal ts (calls f) := by
  constructor
  · rw [← h.sheet.path]
    rcases hf with ⟨n, hn⟩ | ⟨p, m, n, hm, hn⟩
    · exact h.sheet.functions _ hn
    · exact h.modules.functions.find? hm _ _ hn
  · rcases (situation ts).home_cases f with hhome | ⟨p, n, -, hn, hhome⟩
    · rw [hhome]
      exact h.sheet.proper
    · rw [hhome]
      refine ⟨nofun, fun _ q hq => ?_⟩
      cases hq
      exact h.modules.opened p n hn

/-- What the body of a function leaves of a state and of the situation. -/
structure Inside (f : UserFunction) (ds : List Turn) (s s' : State σ) : Prop where
  functions : s'.sheet.functions = s.sheet.functions
  modules : s'.modules = s.modules
  ended : ∀ ts, Fits ts s → Legal ts (calls f) → Sound (ds ++ calls f :: ts) ∧
    situation (ds ++ calls f :: ts) = situation (calls f :: ts) ∧
    s'.sheet.path = s.sheet.path ∧ s'.sheet.namespaces = s.sheet.namespaces

/-- **A function runs at home** with the namespaces that are in force. -/
theorem inside_home {f : UserFunction} (hf : IsHome f s.sheet)
    (h : Ran .function ds { s with sheet := s.sheet.framed } s') :
    Inside f ds s { s' with sheet := s.sheet.unframed s'.sheet } where
  functions := h.functions rfl
  modules := h.modules rfl
  ended ts hs hlegal := by
    -- the stylesheet of the function runs, so the call goes back to the run in force
    have hhome : (situation ts).home f = (situation ts).inForce := by
      cases hp : f.home with
      | none => exact (situation ts).home_of_none hp
      | some p =>
        refine Situation.home_of_path hp ?_
        rw [← hs.sheet.path]
        exact (isHome_iff hp _).1 hf
    have hstart : Fits (calls f :: ts) { s with sheet := s.sheet.framed } := {
      sheet := by
        have hsheet := hs.sheet.later (List.suffix_cons (calls f) ts) hhome rfl
        exact ⟨hsheet.path, hsheet.namespaces, hsheet.functions, hsheet.proper⟩
      modules := hs.modules.later (List.suffix_cons _ ts) rfl fun _ _ _ => rfl
      sound := hs.sound.cons hlegal }
    obtain ⟨hfits, -, hsituation⟩ := h.inner hstart
    refine ⟨hfits.sound, hsituation, ?_, ?_⟩
    · exact hfits.sheet.path.trans (by rw [hsituation]; exact hstart.sheet.path.symm)
    · exact hfits.sheet.namespaces.trans (by rw [hsituation]; exact hstart.sheet.namespaces.symm)

/-- **A function of another module** runs with the namespaces of the run that is kept as it. -/
theorem inside_away {f : UserFunction} {p : Path} {m : Module} (hf : IsAway f s p m)
    (h : Ran .function ds { s with sheet := (Sheet.ofModule m p).framed } s') :
    Inside f ds s { s' with sheet := s.sheet } where
  functions := rfl
  modules := h.modules rfl
  ended ts hs hlegal := by
    obtain ⟨hp, hpath, hm⟩ := hf
    rw [hs.sheet.path] at hpath
    obtain ⟨n, hn, hown⟩ := hs.modules.exists_kept hm
    -- the stylesheet of the function does not run, so the call goes back to the run that is kept
    have hhome := Situation.home_of_kept hp hpath hn
    have hlater := List.suffix_cons (calls f) ts
    have hin : (situation (calls f :: ts)).inForce = ⟨n, some p, false⟩ := hhome
    have hstart : Fits (calls f :: ts) { s with sheet := (Sheet.ofModule m p).framed } := {
      sheet := {
        path := by rw [hin]; rfl
        namespaces := by rw [hin]; exact hown
        functions := (hs.modules.functions.find? hm (some p)).imp fun _ hg => hg.later hlater
        proper := by
          rw [hin, ← hhome]
          exact hlegal.2.later hlater }
      modules := hs.modules.later hlater rfl fun _ _ _ => rfl
      sound := hs.sound.cons hlegal }
    obtain ⟨hfits, -, hsituation⟩ := h.inner hstart
    exact ⟨hfits.sound, hsituation, rfl, rfl⟩

/-- **Behind a call** everything is as before it. -/
theorem Inside.ran {f : UserFunction} (h : Inside f ds s s') (hf : Known s f) :
    Ran .function (ends :: (ds ++ [calls f])) s s' where
  functions _ := h.functions
  modules _ := h.modules
  fits ts hs _ := by
    have hlegal := hs.legal_calls hf
    obtain ⟨hsound, hsituation, hpath, hnamespaces⟩ := h.ended ts hs hlegal
    have hsame : situation (ends :: (ds ++ [calls f]) ++ ts) = situation ts := by
      rw [ended_append]
      show (situation (ds ++ calls f :: ts)).leave = _
      rw [hsituation]
      rfl
    have hlater : ts <:+ ends :: (ds ++ [calls f]) ++ ts := List.suffix_append _ ts
    have hend : Fits (ends :: (ds ++ [calls f]) ++ ts) s := {
      sheet := hs.sheet.later hlater (by rw [hsame]) (by rw [hsame])
      modules := hs.modules.later hlater (by rw [hsame]) fun _ _ _ => by rw [hsame]
      sound := ended_append (calls f) ds ts ▸ hsound.cons trivial }
    refine ⟨hend.of_alike ⟨hpath, hnamespaces, h.functions, h.modules⟩, .of_eq hsame, fun _ => hsame⟩

/-! ### Files -/

/-- What ends leaves the modules as they are. -/
theorem FitsModules.ended {modules : Table Path Module} (h : FitsModules ts modules) :
    FitsModules (ends :: ts) modules :=
  h.later (List.suffix_cons _ ts) (situation ts).leave_kept fun _ _ _ =>
    congrFun (situation ts).leave_own _

/-- **Behind an import** the namespaces of the importing run are in force again. -/
theorem ran_import
    (h : Ran .top ds { s with sheet := { s.sheet with namespaces := .none } } s') :
    Ran .top (ends :: (ds ++ [imports])) s
      { s' with sheet := { s'.sheet with namespaces := s.sheet.namespaces } } := by
  refine .of_top fun ts hs ha => ?_
  have hlater := List.suffix_cons imports ts
  -- the file gets a run of its own, which starts without namespaces
  have hstart : Fits (imports :: ts) { s with sheet := { s.sheet with namespaces := .none } } := {
    sheet := {
      path := hs.sheet.path
      namespaces := ((bounded ts).fresh _ (Nat.lt_succ_self _)).symm
      functions := hs.sheet.functions.imp fun _ hf => hf.later hlater
      proper := ⟨nofun, nofun⟩ }
    modules := hs.modules.later hlater rfl fun _ _ _ => rfl
    sound := hs.sound.cons trivial }
  have hnew : ts.length < ts.length + 1 := Nat.lt_succ_self _
  obtain ⟨hfits, hleaves, -⟩ :=
    h.fits _ hstart fun _ => Leaves.apart_enter rfl hnew ha
  have hinner := hleaves.mono (Nat.le_succ ts.length)
  have hleft : Leaves ts.length ts (ends :: (ds ++ [imports])) := hinner.ended rfl hnew
  -- nothing inside it gives other namespaces to the run around it
  have hown := Leaves.own_ended rfl hnew hinner ((bounded ts).running _ List.mem_cons_self)
  refine ⟨?_, hleft⟩
  have hin := hleft.inForce
  rw [ended_append] at hin ⊢
  exact {
    sheet := {
      path := by
        rw [hin]
        exact hfits.sheet.path.trans (by rw [hleaves.inForce]; rfl)
      namespaces := by
        rw [hin]
        exact hs.sheet.namespaces.trans
          (hown.symm.trans (congrFun (Situation.leave_own _) _).symm)
      functions := hfits.sheet.functions.imp fun _ hf => hf.later (List.suffix_cons _ _)
      proper := by
        rw [hin, ← ended_append]
        exact hs.sheet.proper.later (List.suffix_append _ ts) }
    modules := hfits.modules.ended
    sound := hfits.sound.cons trivial }

/-- A file that is run as a module has a stylesheet of its own. -/
theorem fits_opens (hs : Fits ts s) (p : Path) (bindings : Bindings) :
    Fits (opens p :: ts) { s with sheet := .start bindings (some p) } where
  sheet := {
    path := rfl
    namespaces := ((bounded ts).fresh _ (Nat.lt_succ_self _)).symm
    functions := Table.all_empty
    proper := by
      refine ⟨nofun, fun _ q hq => ?_⟩
      cases hq
      exact ⟨p, ts, List.suffix_refl _, beq_self_eq_true p, rfl⟩ }
  modules := hs.modules.later (List.suffix_cons _ ts) rfl fun _ _ _ => rfl
  sound := hs.sound.cons trivial

/-- **A module that is kept** is that of the run in force, and has the namespaces of it. -/
theorem fitsModules_keeps {p : Path} (hs : Fits ts s)
    (hin : ∃ n, (situation ts).inForce = ⟨n, some p, false⟩) :
    FitsModules (keeps p :: ts) (s.modules.insert p s.sheet.toModule) := by
  obtain ⟨n, hin⟩ := hin
  have hlater := List.suffix_cons (keeps p) ts
  have hkept (q : Path) : (situation (keeps p :: ts)).kept.find? q =
      if p == q then some n else (situation ts).kept.find? q := by
    show ((situation ts).kept.insert p (situation ts).inForce.number).find? q = _
    rw [Table.find?_insert, hin]
  have hpath : s.sheet.path = some p := hs.sheet.path.trans (by rw [hin])
  refine ⟨fun q => ?_, Table.All.insert ?_ p fun path => ?_, fun q m hm => ?_⟩
  · rw [Table.find?_insert, hkept]
    split
    · exact congrArg some (hs.sheet.namespaces.trans (by rw [hin]; rfl))
    · exact hs.modules.kept q
  · exact hs.modules.functions.imp fun _ hm path => (hm path).imp fun _ hf => hf.later hlater
  · refine hs.sheet.functions.imp fun f hf => ?_
    have hhere := hf.later hlater
    rw [hpath] at hhere
    refine ⟨hhere.declared, fun hnone => absurd (hhere.entry hnone) nofun, fun q hq => .inr ?_⟩
    rcases hhere.file q hq with hpq | hq
    · cases hpq
      exact ⟨n, by rw [hkept, beq_self_eq_true]; rfl⟩
    · exact hq
  · rw [hkept] at hm
    split at hm
    · next hpq =>
      cases hm
      have hopened := hs.sheet.proper.opened (by rw [hin]) p (by rw [hin])
      rw [hin] at hopened
      exact (hopened.congr hpq).later hlater
    · exact (hs.modules.opened q m hm).later hlater

/-- **Behind a file that was run as a module** the stylesheet is the one before it, whether the
module is kept or the file failed. -/
theorem ran_open (us : List Turn) {p : Path} {bindings : Bindings} {modules : Table Path Module}
    {host : σ}
    (h : Ran .top ds { s with sheet := .start bindings (some p) } s')
    (hend : ∀ ts, Fits ts s' → (∃ n, (situation ts).inForce = ⟨n, some p, false⟩) →
      FitsModules (us ++ ts) modules ∧ Sound (us ++ ts) ∧
        ∀ m < (situation ts).inForce.number, Leaves m ts us) :
    Ran .top (ends :: (us ++ ds ++ [opens p])) s ⟨s.sheet, modules, host⟩ := by
  refine .of_top fun ts hs ha => ?_
  have hnew : ts.length < ts.length + 1 := Nat.lt_succ_self _
  obtain ⟨hfits, hleaves, -⟩ :=
    h.fits _ (fits_opens hs p bindings) fun _ => Leaves.apart_enter rfl hnew ha
  have hin : (situation (ds ++ opens p :: ts)).inForce = ⟨ts.length + 1, some p, false⟩ :=
    hleaves.inForce
  obtain ⟨hmodules, hsound, hus⟩ := hend _ hfits ⟨_, hin⟩
  have hinner : Leaves ts.length (opens p :: ts) (us ++ ds) :=
    (hleaves.mono (Nat.le_succ _)).trans (hus _ (by rw [hin]; exact hnew))
  have hleft : Leaves ts.length ts (ends :: (us ++ ds ++ [opens p])) := hinner.ended rfl hnew
  -- the run that loads the file is not the one that the file runs in
  have hown := Leaves.own_ended rfl hnew hinner ((bounded ts).running _ List.mem_cons_self)
  refine ⟨⟨hs.sheet.later (List.suffix_append _ ts) hleft.inForce ?_, ?_, ?_⟩, hleft⟩
  · rw [ended_append]
    exact (congrFun (Situation.leave_own _) _).trans hown
  · rw [ended_append, List.append_assoc]
    exact hmodules.ended
  · rw [ended_append, List.append_assoc]
    exact hsound.cons trivial

/-! ### The ledger -/

variable [Log.Sink σ]

/-- **The ledger of turns.** -/
def ledger : Ledger Turn σ where
  notes := notes
  Called := Ran .function
  Ran := Ran
  Loaded := Ran .top
  Known := Known
  known_called h f := by
    unfold Known
    rw [h.functions rfl, h.modules rfl]
  known_sheet _ := fun e he => .inl ⟨e.1, he⟩
  known_module hm := fun e he => .inr ⟨_, _, e.1, hm, he⟩
  called := composes_ran _
  ran := composes_ran
  loaded := composes_ran _
  ran_of_called _ _ _ _ := Ran.of_function
  loaded_of_called := Ran.of_function
  top_of_loop h := .of_top fun ts hs _ => by
    obtain ⟨hfits, hleaves, -⟩ := h.fits ts hs fun hg => by cases hg
    exact ⟨hfits, hleaves⟩
  host _ _ := .of_alike ⟨rfl, rfl, rfl, rfl⟩
  before := quiet_look
  behind := quiet_look
  default := quiet_look
  start := quiet_look
  value _ := .ret (composes_ran _) trivial
  loops := rfl
  assign _ _ _ _ := .of_alike ⟨rfl, rfl, rfl, rfl⟩
  global _ _ _ := .of_run (fun _ _ => rfl) fun _ => .of_alike ⟨rfl, rfl, rfl, rfl⟩
  function hg signature body s es :=
    ⟨[declares signature.parameters body], rfl, ran_declare hg _ _ _ _, fun _ _ => trivial⟩
  block _ _ _ s s' h := ⟨h.functions, h.modules, fun ts hs ha => by
    obtain ⟨hfits, hleaves, hsame⟩ := h.fits ts (hs.of_alike ⟨rfl, rfl, rfl, rfl⟩) ha
    exact ⟨hfits.of_alike ⟨rfl, rfl, rfl, rfl⟩, hleaves, hsame⟩⟩
  load h := h.closing (e := fun s => loads s.namespaces) ran_load

theorem homing : (ledger (σ := σ)).Homing where
  call name f args act act' ha s hf es := by
    have body : Accounts (Inside f) (fun _ => True) (atHome name f act) (atHome name f act') :=
      Ledger.atHome_of (L := ledger)
        (fun s => ⟨rfl, rfl, fun ts hs hlegal => ⟨hs.sound.cons hlegal, rfl, rfl, rfl⟩⟩)
        inside_home inside_away ha name
    have call : Accounts (fun ds s s' => Known s f → Ran .function ds s s') (fun _ => True)
        (atHome name f act) (during (calls f) (atHome name f act')) :=
      accounts_during body Inside.ran
    obtain ⟨ds, hrun, hran, hQ⟩ := call s es
    exact ⟨ds, hrun, hran hf, hQ⟩

/-- **What is left of calls, imports and modules** is what their turns say. -/
theorem calling : (ledger (σ := σ)).Calling where
  toHoming := homing
  imported {act act'} ha := by
    have inner : Accounts (fun ds s s' => ∃ ds', ds = ends :: (ds' ++ [imports]) ∧ Ran .top ds' s s')
        (fun _ => True) act (during imports act') := accounts_during ha fun h => ⟨_, rfl, h⟩
    refine inner.around ?_
    rintro _ s s' ⟨ds, rfl, h⟩
    exact ran_import h
  read _ := .ret (composes_ran _) trivial
  shared _ _ := .ret (composes_ran _) trivial
  loaded hr p bindings _ body := by
    refine accounts_during (Ledger.loading (L := ledger) hr (fun _ => [keeps p])
      (R := fun ds s s' => Ran .top (ends :: (ds ++ [opens p])) s s') (fun _ _ _ => rfl) ?_ ?_) id
    · intro ds s s' h
      exact ran_open [] h fun ts hfits _ =>
        ⟨hfits.modules, hfits.sound, fun _ _ => .of_eq rfl⟩
    · intro ds s s' _ h
      exact ran_open [keeps p] h fun ts hfits hin =>
        ⟨fitsModules_keeps hfits hin, hfits.sound.cons trivial, fun m hm => .keeps p hm⟩

end Turn
end Stylesheet
