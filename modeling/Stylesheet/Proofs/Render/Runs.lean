import Mathlib.Logic.Function.Basic
import Stylesheet.Proofs.Render.Loading

/-!
# Runs of files

The statements of a file may run more than once: for every stylesheet that imports it, and for
every module that it becomes. Each run has namespaces of its own. A call of a function goes back to
a run of its file; to which one follows from the order in which runs, calls and rules take turns.

* `Turn`: what decides which run is in force and what its namespaces are.
* `situation`: the run in force, those that wait behind it and those that are kept as modules.
* `Situation.home`: the run to which a call goes back.
* `number_home`: it is the run that declares the function, unless an import or another load of the
  file stands between them.
-/

namespace Stylesheet

/-- A turn of a rendering. All turns, the latest first, are its history. -/
inductive Turn where
  /-- The statements of a file start to run in the stylesheet that imports it. -/
  | imports
  /-- The statements of a file start to run as those of a module. -/
  | opens (p : Path)
  /-- The body of a function starts to run. -/
  | calls (f : UserFunction)
  /-- What started last is over. -/
  | ends
  /-- The run in force is kept as a module. -/
  | keeps (p : Path)
  /-- A rule that loads a module is done with these namespaces. -/
  | loads (own : Namespaces)
  /-- A function is about to be declared. -/
  | declares (parameters : List Parameter) (body : List Stmt)
  /-- A statement, the binding of arguments or a default passes with these namespaces in force. -/
  | passed (inForce : Namespaces)

namespace Turn

/-- A run of the statements of a file. -/
structure Run where
  number : Nat
  /-- The path of the stylesheet in which they run; none for the entry. -/
  path : Option Path
  /-- They run in the stylesheet that imports the file. -/
  imported : Bool

/-! ### Situations -/

/-- **Which runs there are** between two turns. -/
structure Situation where
  inForce : Run
  /-- The runs that wait for the one in force, the latest first. -/
  waiting : List Run
  /-- The runs that are kept as modules, by their paths. -/
  kept : Table Path Nat
  /-- The namespaces of every run. -/
  own : Nat → Namespaces

namespace Situation

/-- Only the entry runs. -/
def first : Situation := ⟨⟨0, none, false⟩, [], .empty, fun _ => .none⟩

def enter (s : Situation) (r : Run) : Situation :=
  { s with inForce := r, waiting := s.inForce :: s.waiting }

def leave (s : Situation) : Situation :=
  match s.waiting with
  | [] => s
  | r :: rs => { s with inForce := r, waiting := rs }

/-- **The run to which a call goes back:** the one in force if the function belongs to its
stylesheet, and else the one that is kept as the module of the function. -/
def home (s : Situation) (f : UserFunction) : Run :=
  match f.home with
  | none => s.inForce
  | some p =>
      if s.inForce.path == some p then s.inForce
      else
        match s.kept.find? p with
        | some n => ⟨n, some p, false⟩
        | none => s.inForce

/-- The situation behind a turn. A run that starts in it gets a number. -/
def after (s : Situation) (number : Nat) : Turn → Situation
  | .imports => s.enter ⟨number, s.inForce.path, true⟩
  | .opens p => s.enter ⟨number, some p, false⟩
  | .calls f => s.enter (s.home f)
  | .ends => s.leave
  | .keeps p => { s with kept := s.kept.insert p s.inForce.number }
  | .loads own => { s with own := Function.update s.own s.inForce.number own }
  | .declares _ _ | .passed _ => s

/-- All runs that have started and are not over. -/
def running (s : Situation) : List Run := s.inForce :: s.waiting

theorem leave_kept (s : Situation) : s.leave.kept = s.kept := by
  unfold leave
  split <;> rfl

theorem leave_own (s : Situation) : s.leave.own = s.own := by
  unfold leave
  split <;> rfl

end Situation

/-- **The situation** behind a history. The number of a run tells how many turns there were when it
had started. -/
def situation : List Turn → Situation
  | [] => .first
  | e :: ts => (situation ts).after (ts.length + 1) e

theorem own_loads (ts : List Turn) (own : Namespaces) :
    (situation (loads own :: ts)).own (situation ts).inForce.number = own :=
  Function.update_self _ _ _

variable {ts ts' us ds : List Turn} {f : UserFunction}

/-- Numbers are given once: they grow, and a run has no namespaces before its start. -/
structure Situation.Bounded (s : Situation) (n : Nat) : Prop where
  running : ∀ r ∈ s.running, r.number ≤ n
  kept : ∀ p m, s.kept.find? p = some m → m ≤ n
  fresh : ∀ m, n < m → s.own m = .none

namespace Situation

variable (s : Situation) {p : Path}

theorem home_of_none (hp : f.home = none) : s.home f = s.inForce := by
  unfold home
  rw [hp]

variable {s}

theorem home_of_path (hp : f.home = some p) (h : (s.inForce.path == some p) = true) :
    s.home f = s.inForce := by
  unfold home
  rw [hp]
  exact if_pos h

theorem home_of_kept (hp : f.home = some p) (h : (s.inForce.path == some p) = false) {n : Nat}
    (hn : s.kept.find? p = some n) : s.home f = ⟨n, some p, false⟩ := by
  unfold home
  rw [hp]
  dsimp only
  rw [if_neg (Bool.eq_false_iff.1 h), hn]

variable (s) (f)

/-- A call goes back to a run of before. -/
theorem home_cases :
    s.home f = s.inForce ∨
      ∃ p n, f.home = some p ∧ s.kept.find? p = some n ∧ s.home f = ⟨n, some p, false⟩ := by
  cases hp : f.home with
  | none => exact .inl (s.home_of_none hp)
  | some p =>
    cases h : s.inForce.path == some p with
    | true => exact .inl (home_of_path hp h)
    | false =>
      cases hn : s.kept.find? p with
      | some n => exact .inr ⟨p, n, rfl, hn, home_of_kept hp h hn⟩
      | none =>
        refine .inl ?_
        unfold home
        rw [hp]
        dsimp only
        rw [if_neg (Bool.eq_false_iff.1 h), hn]

end Situation

namespace Situation.Bounded

variable {s : Situation} {n : Nat}

theorem later (h : s.Bounded n) : s.Bounded (n + 1) where
  running r hr := Nat.le_succ_of_le (h.running r hr)
  kept p m hm := Nat.le_succ_of_le (h.kept p m hm)
  fresh m hm := h.fresh m (Nat.lt_of_succ_lt hm)

theorem enter (h : s.Bounded n) {r : Run} (hr : r.number ≤ n) : (s.enter r).Bounded n where
  running := List.forall_mem_cons.2 ⟨hr, h.running⟩
  kept := h.kept
  fresh := h.fresh

theorem home_le (h : s.Bounded n) (f : UserFunction) : (s.home f).number ≤ n := by
  rcases s.home_cases f with hf | ⟨p, m, -, hm, hf⟩
  · rw [hf]
    exact h.running _ List.mem_cons_self
  · rw [hf]
    exact h.kept p m hm

theorem leave (h : s.Bounded n) : s.leave.Bounded n := by
  unfold Situation.leave
  split
  · exact h
  · next r rs hw =>
    refine ⟨fun r' hr' => h.running r' (List.mem_cons_of_mem _ ?_), h.kept, h.fresh⟩
    rwa [hw]

theorem after (h : s.Bounded n) (e : Turn) : (s.after (n + 1) e).Bounded (n + 1) := by
  have hin : s.inForce.number ≤ n := h.running _ List.mem_cons_self
  cases e with
  | imports => exact h.later.enter (Nat.le_refl _)
  | opens p => exact h.later.enter (Nat.le_refl _)
  | calls f => exact h.later.enter (h.later.home_le f)
  | ends => exact h.later.leave
  | keeps p =>
    refine ⟨h.later.running, fun q m hm => ?_, h.later.fresh⟩
    change (s.kept.insert p s.inForce.number).find? q = some m at hm
    rw [Table.find?_insert] at hm
    split at hm
    · cases hm
      exact Nat.le_succ_of_le hin
    · exact h.later.kept q m hm
  | loads own =>
    refine ⟨h.later.running, h.later.kept, fun m hm => ?_⟩
    change Function.update s.own s.inForce.number own m = _
    rw [Function.update_of_ne (by omega)]
    exact h.later.fresh m hm
  | declares _ _ => exact h.later
  | passed _ => exact h.later

end Situation.Bounded

theorem bounded (ts : List Turn) : (situation ts).Bounded ts.length := by
  induction ts with
  | nil =>
    refine ⟨fun r hr => ?_, nofun, fun _ _ => rfl⟩
    rw [List.mem_singleton.1 hr]
    exact Nat.le_refl 0
  | cons e ts ih => exact ih.after e

/-! ### Declarations -/

/-- **A function is declared** behind a history: it has its parameters and its body, and it belongs
to the stylesheet that is running. -/
structure Declared (ts : List Turn) (f : UserFunction) (ds : List Turn) : Prop where
  declares : declares f.parameters f.body :: ds <:+ ts
  home : f.home = (situation ds).inForce.path

theorem Declared.later (h : Declared ts f ds) (ht : ts <:+ ts') : Declared ts' f ds :=
  ⟨h.declares.trans ht, h.home⟩

/-- **A function in reach** of a stylesheet is declared there or in a run that is kept. Only the
functions of the entry, which has no path, have no home. -/
structure InReach (ts : List Turn) (path : Option Path) (f : UserFunction) : Prop where
  declared : ∃ ds, Declared ts f ds
  entry : f.home = none → path = none
  file : ∀ p, f.home = some p → path = some p ∨ ∃ n, (situation ts).kept.find? p = some n

/-- What is kept stays kept, if by another run. -/
theorem kept_later (ht : ts <:+ ts') {p : Path} {n : Nat}
    (hn : (situation ts).kept.find? p = some n) : ∃ m, (situation ts').kept.find? p = some m := by
  obtain ⟨us, rfl⟩ := ht
  induction us with
  | nil => exact ⟨n, hn⟩
  | cons e us ih =>
    obtain ⟨m, hm⟩ := ih
    cases e with
    | keeps q =>
      show ∃ m, ((situation (us ++ ts)).kept.insert q _).find? p = some m
      rw [Table.find?_insert]
      split
      · exact ⟨_, rfl⟩
      · exact ⟨m, hm⟩
    | ends =>
      show ∃ m, (situation (us ++ ts)).leave.kept.find? p = some m
      rw [Situation.leave_kept]
      exact ⟨m, hm⟩
    | _ => exact ⟨m, hm⟩

theorem InReach.later {path : Option Path} (h : InReach ts path f) (ht : ts <:+ ts') :
    InReach ts' path f where
  declared := h.declared.imp fun _ hd => hd.later ht
  entry := h.entry
  file p hp := (h.file p hp).imp_right fun ⟨_, hn⟩ => kept_later ht hn

/-- **No rule has loaded a module** into a run since a history. -/
def Settled (n : Nat) (ds ts : List Turn) : Prop :=
  ∀ own us, loads own :: us <:+ ts → ds <:+ us → (situation us).inForce.number ≠ n

/-- A run keeps its namespaces while no rule loads a module into it. -/
theorem Settled.own_eq {n : Nat} (h : Settled n ds ts) (ht : ds <:+ ts) :
    (situation ts).own n = (situation ds).own n := by
  obtain ⟨us, rfl⟩ := ht
  induction us with
  | nil => rfl
  | cons e us ih =>
    have hrest := ih fun own vs hvs hds => h own vs (hvs.trans (List.suffix_cons e _)) hds
    rw [← hrest]
    cases e with
    | loads own =>
      have hne := h own (us ++ ds) (List.suffix_refl _) (List.suffix_append us ds)
      exact Function.update_of_ne hne.symm _ _
    | ends => exact congrFun (situation (us ++ ds)).leave_own n
    | _ => rfl

/-! ### Calls -/

/-- A turn starts something. -/
def starts : Turn → Bool
  | imports | opens _ | calls _ => true
  | _ => false

/-- **All that has started in a part of a history is over** in it. -/
inductive Closed : List Turn → Prop
  | nil : Closed []
  | plain {e : Turn} {us : List Turn} (hs : e.starts = false) (he : e ≠ ends) (h : Closed us) :
      Closed (e :: us)
  | ended {e : Turn} {us vs : List Turn} (hs : e.starts = true) (hu : Closed us) (hv : Closed vs) :
      Closed (ends :: (us ++ e :: vs))

theorem running_after_plain (s : Situation) (n : Nat) {e : Turn} (hs : e.starts = false)
    (he : e ≠ ends) : (s.after n e).running = s.running := by
  cases e with
  | ends => exact absurd rfl he
  | imports => cases hs
  | opens _ => cases hs
  | calls _ => cases hs
  | _ => rfl

theorem exists_running_after_start (s : Situation) (n : Nat) {e : Turn} (hs : e.starts = true) :
    ∃ r, (s.after n e).running = r :: s.running := by
  cases e with
  | imports => exact ⟨_, rfl⟩
  | opens p => exact ⟨_, rfl⟩
  | calls f => exact ⟨_, rfl⟩
  | _ => cases hs

/-- **What is over** leaves the same runs in force and waiting. -/
theorem Closed.running_eq (h : Closed us) (ts : List Turn) :
    (situation (us ++ ts)).running = (situation ts).running := by
  induction h generalizing ts with
  | nil => rfl
  | plain hs he _ ih => exact (running_after_plain _ _ hs he).trans (ih ts)
  | @ended e us vs hs _ _ ihu ihv =>
    obtain ⟨r, hr⟩ := exists_running_after_start (situation (vs ++ ts)) ((vs ++ ts).length + 1) hs
    have hinner : (situation (us ++ e :: vs ++ ts)).running = r :: (situation ts).running := by
      rw [List.append_assoc, ihu, ← ihv ts]
      exact hr
    -- the run that started last is the one that is left
    show (situation (us ++ e :: vs ++ ts)).leave.running = _
    unfold Situation.running at hinner
    injection hinner with _ hw
    unfold Situation.leave
    rw [hw]
    rfl

theorem Closed.inForce_eq (h : Closed us) (ts : List Turn) :
    (situation (us ++ ts)).inForce = (situation ts).inForce :=
  (List.cons.inj (h.running_eq ts)).1

/-! ### Runs of one file -/

/-- A run of a file as that of a module, by its number. -/
def Opened (ts : List Turn) (p : Path) (n : Nat) : Prop :=
  ∃ q us, opens q :: us <:+ ts ∧ (q == p) = true ∧ n = us.length + 1

/-- How often a file was opened as that of a module. -/
def openings (p : Path) (ts : List Turn) : Nat :=
  ts.countP fun
    | opens q => q == p
    | _ => false

theorem Opened.later {p : Path} {n : Nat} (h : Opened ts p n) (ht : ts <:+ ts') :
    Opened ts' p n := by
  obtain ⟨q, us, hus, hq, hn⟩ := h
  exact ⟨q, us, hus.trans ht, hq, hn⟩

theorem Opened.congr {p q : Path} {n : Nat} (h : Opened ts p n) (hpq : (p == q) = true) :
    Opened ts q n := by
  obtain ⟨o, us, hus, ho, hn⟩ := h
  exact ⟨o, us, hus, BEq.trans ho hpq, hn⟩

theorem Opened.openings_pos {p : Path} {n : Nat} (h : Opened ts p n) : 0 < openings p ts := by
  obtain ⟨q, us, hus, hq, -⟩ := h
  exact List.countP_pos_iff.2 ⟨_, hus.subset List.mem_cons_self, hq⟩

/-- A file that was opened once at most has one run as a module at most. -/
theorem Opened.unique {p : Path} {n m : Nat} (hn : Opened ts p n) (hm : Opened ts p m)
    (hone : openings p ts ≤ 1) : n = m := by
  induction ts with
  | nil =>
    obtain ⟨_, _, hus, -⟩ := hn
    cases List.suffix_nil.1 hus
  | cons e ts ih =>
    obtain ⟨q, us, hus, hq, rfl⟩ := hn
    obtain ⟨o, vs, hvs, ho, rfl⟩ := hm
    -- if one of both is the latest, the other one is no earlier
    have latest {o : Path} {vs : List Turn} (h : opens o :: vs = e :: ts) (ho : (o == p) = true) :
        openings p ts = 0 := by
      injection h with he _
      subst he
      have hcount : openings p (opens o :: ts) = openings p ts + 1 := List.countP_cons_of_pos ho
      omega
    rcases List.suffix_cons_iff.1 hus with hu | hu <;> rcases List.suffix_cons_iff.1 hvs with hv | hv
    · cases hu
      cases hv
      rfl
    · have hpos := Opened.openings_pos ⟨o, vs, hv, ho, rfl⟩
      exact absurd (latest hu hq) (Nat.ne_of_gt hpos)
    · have hpos := Opened.openings_pos ⟨q, us, hu, hq, rfl⟩
      exact absurd (latest hv ho) (Nat.ne_of_gt hpos)
    · refine ih ⟨q, us, hu, hq, rfl⟩ ⟨o, vs, hv, ho, rfl⟩ (Nat.le_trans ?_ hone)
      exact List.Sublist.countP_le (List.sublist_cons_self e ts)

/-- **A run that is not one of an imported file** is that of the entry, or it was opened. -/
structure Run.Proper (ts : List Turn) (r : Run) : Prop where
  entry : r.imported = false → r.path = none → r.number = 0
  opened : r.imported = false → ∀ p, r.path = some p → Opened ts p r.number

theorem Run.Proper.later {r : Run} (h : r.Proper ts) (ht : ts <:+ ts') : r.Proper ts' :=
  ⟨h.entry, fun hi p hp => (h.opened hi p hp).later ht⟩

/-- **A call goes back to the run that declares the function** if neither of both is a run of an
imported file and the file of the function was opened once at most. -/
theorem number_home (hd : Declared ts f ds) (hf : InReach ts (situation ts).inForce.path f)
    (hr : (situation ds).inForce.Proper ds) (hc : ((situation ts).home f).Proper ts)
    (hdi : (situation ds).inForce.imported = false)
    (hci : ((situation ts).home f).imported = false)
    (hone : ∀ p, f.home = some p → openings p ts ≤ 1) :
    ((situation ts).home f).number = (situation ds).inForce.number := by
  cases hp : f.home with
  | none =>
    have hhome := (situation ts).home_of_none hp
    rw [hc.entry hci (hhome ▸ hf.entry hp), hr.entry hdi (hd.home.symm.trans hp)]
  | some p =>
    have hds : ds <:+ ts := (List.suffix_cons _ ds).trans hd.declares
    have hown := (hr.opened hdi p (hd.home.symm.trans hp)).later hds
    refine Opened.unique ?_ hown (hone p hp)
    cases hpath : (situation ts).inForce.path == some p with
    | true =>
      -- the file runs, under a path that may be spelled otherwise
      have hhome := Situation.home_of_path hp hpath
      cases hq : (situation ts).inForce.path with
      | none =>
        rw [hq] at hpath
        cases hpath
      | some q =>
        rw [hq] at hpath
        exact (hc.opened hci q (hhome ▸ hq)).congr hpath
    | false =>
      rcases hf.file p hp with hq | ⟨n, hn⟩
      · rw [hq, beq_self_eq_true] at hpath
        cases hpath
      · rw [Situation.home_of_kept hp hpath hn] at hc ⊢
        exact hc.opened rfl p rfl

/-! ### Statements of files -/

/-- The turns from the start of something to its end, behind a history. -/
theorem ended_append (e : Turn) (ds ts : List Turn) :
    ends :: (ds ++ [e]) ++ ts = ends :: (ds ++ e :: ts) := by
  rw [List.cons_append, List.append_assoc]
  rfl

/-- **No run that is kept is still running.** -/
def Situation.Apart (s : Situation) : Prop :=
  ∀ r ∈ s.running, ∀ p n, s.kept.find? p = some n → r.number ≠ n

/-- **What statements of a file leave of the situation:** the run in force and the ones that wait
for it. Of the runs up to a number they change the namespaces of the one in force only, and those
that they keep have later numbers. -/
structure Leaves (m : Nat) (ts ds : List Turn) : Prop where
  inForce : (situation (ds ++ ts)).inForce = (situation ts).inForce
  waiting : (situation (ds ++ ts)).waiting = (situation ts).waiting
  own : ∀ n ≤ m, n ≠ (situation ts).inForce.number →
    (situation (ds ++ ts)).own n = (situation ts).own n
  kept : ∀ p n, (situation (ds ++ ts)).kept.find? p = some n →
    (situation ts).kept.find? p = some n ∨ m < n

namespace Leaves

variable {m : Nat}

theorem of_eq (h : situation (ds ++ ts) = situation ts) : Leaves m ts ds where
  inForce := by rw [h]
  waiting := by rw [h]
  own _ _ _ := by rw [h]
  kept _ _ hn := .inl (by rwa [h] at hn)

theorem mono {k : Nat} (h : Leaves m ts ds) (hk : k ≤ m) : Leaves k ts ds where
  inForce := h.inForce
  waiting := h.waiting
  own n hn := h.own n (Nat.le_trans hn hk)
  kept p n hn := (h.kept p n hn).imp_right (Nat.lt_of_le_of_lt hk)

theorem trans (h : Leaves m ts ds) (h' : Leaves m (ds ++ ts) us) : Leaves m ts (us ++ ds) where
  inForce := by rw [List.append_assoc, h'.inForce, h.inForce]
  waiting := by rw [List.append_assoc, h'.waiting, h.waiting]
  own n hn hne := by rw [List.append_assoc, h'.own n hn (by rwa [h.inForce]), h.own n hn hne]
  kept p n hn := by
    rw [List.append_assoc] at hn
    exact (h'.kept p n hn).elim (h.kept p n) .inr

theorem running (h : Leaves m ts ds) :
    (situation (ds ++ ts)).running = (situation ts).running := by
  unfold Situation.running
  rw [h.inForce, h.waiting]

theorem apart (h : Leaves ts.length ts ds) (ha : (situation ts).Apart) :
    (situation (ds ++ ts)).Apart := by
  intro r hr p n hn
  rw [h.running] at hr
  rcases h.kept p n hn with hn | hn
  · exact ha r hr p n hn
  · exact Nat.ne_of_lt (Nat.lt_of_le_of_lt ((bounded ts).running r hr) hn)

/-- A rule changes the namespaces of the run in force. -/
theorem loads (own : Namespaces) : Leaves m ts [.loads own] where
  inForce := rfl
  waiting := rfl
  own _ _ hne := Function.update_of_ne hne _ _
  kept _ _ hn := .inl hn

/-- The run in force is kept. -/
theorem keeps (p : Path) (h : m < (situation ts).inForce.number) : Leaves m ts [.keeps p] where
  inForce := rfl
  waiting := rfl
  own _ _ _ := rfl
  kept q n hn := by
    change ((situation ts).kept.insert p (situation ts).inForce.number).find? q = some n at hn
    rw [Table.find?_insert] at hn
    split at hn
    · cases hn
      exact .inr h
    · exact .inl hn

section

variable {e : Turn} {r : Run} (he : situation (e :: ts) = (situation ts).enter r)
include he

/-- A file that starts to run gets a number of its own. -/
theorem apart_enter (hr : ts.length < r.number) (ha : (situation ts).Apart) :
    (situation (e :: ts)).Apart := by
  rw [he]
  refine List.forall_mem_cons.2 ⟨fun p n hn => ?_, ha⟩
  exact Nat.ne_of_gt (Nat.lt_of_le_of_lt ((bounded ts).kept p n hn) hr)

/-- A file changes the namespaces of no run before it. -/
theorem own_ended (hr : m < r.number) (h : Leaves m (e :: ts) ds) {n : Nat} (hn : n ≤ m) :
    (situation (ds ++ e :: ts)).own n = (situation ts).own n := by
  have hne : n ≠ (situation (e :: ts)).inForce.number := by
    rw [he]
    exact Nat.ne_of_lt (Nat.lt_of_le_of_lt hn hr)
  rw [h.own n hn hne, he]
  rfl

/-- Behind a file, the run in force is as it was. -/
theorem ended (hr : m < r.number) (h : Leaves m (e :: ts) ds) : Leaves m ts (ends :: (ds ++ [e])) := by
  have hw : (situation (ds ++ e :: ts)).waiting = (situation ts).inForce :: (situation ts).waiting :=
    h.waiting.trans (by rw [he]; rfl)
  have hs : situation (ends :: (ds ++ [e]) ++ ts) = { situation (ds ++ e :: ts) with
      inForce := (situation ts).inForce, waiting := (situation ts).waiting } := by
    rw [ended_append]
    show (situation (ds ++ e :: ts)).leave = _
    unfold Situation.leave
    rw [hw]
  refine ⟨by rw [hs], by rw [hs], fun n hn _ => ?_, fun p n hn => ?_⟩
  · rw [hs]
    exact own_ended he hr h hn
  · rw [hs] at hn
    exact (h.kept p n hn).imp_left fun hn => by rwa [he] at hn

end

end Leaves

end Turn
end Stylesheet
