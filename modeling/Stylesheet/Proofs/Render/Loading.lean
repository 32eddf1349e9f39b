import Stylesheet.Render.State

/-!
# The order in which modules are loaded

Every rule that loads a module either gets members that are kept or runs the file, and keeps its
members then. All events of a rendering, the latest first, are a history. Members are kept under
the path of the file as it is spelled, and only when all statements of the file are done.

* `LoadEvent`, `LoadEvent.Legal`: the events, and the histories that renderings have.
* `LoadEvent.loadedOnce_iff_asked`: every file runs once and is shared after that, exactly if all
  rules spell it alike and none asks for it while it is running.
-/

namespace Stylesheet

/-- Paths are the same when their components are. -/
instance : EquivBEq Path where
  rfl := beq_self_eq_true (α := List Path.Component) _
  symm h := BEq.symm (α := List Path.Component) h
  trans h h' := BEq.trans (α := List Path.Component) h h'

/-- What happens at a rule that loads a module. -/
inductive LoadEvent where
  /-- The rule gets members that are kept. -/
  | shared (p : Path) (m : Module)
  /-- The statements of the file start to run. -/
  | opened (p : Path)
  /-- The statements of the file are done, and the rule gets the members. -/
  | closed (p : Path) (m : Module)

namespace LoadEvent

/-- The path that a rule asks for, if the event is its first. -/
def asked? : LoadEvent → Option Path
  | shared p _ | opened p => some p
  | closed _ _ => none

/-- Some rule of a history asks for a path. -/
def Asked (es : List LoadEvent) (p : Path) : Prop := ∃ e ∈ es, e.asked? = some p

/-- The members that a rule gets, with the path that it asked for. -/
def given? : LoadEvent → Option (Path × Module)
  | shared p m | closed p m => some (p, m)
  | opened _ => none

/-- The modules that are kept after a history. -/
def kept : List LoadEvent → Table Path Module
  | [] => .empty
  | closed p m :: es => (kept es).insert p m
  | shared _ _ :: es | opened _ :: es => kept es

/-- **The histories of renderings**, with the files that are running, the innermost first. -/
inductive Legal : List LoadEvent → List Path → Prop
  | nil : Legal [] []
  | shared {es : List LoadEvent} {running : List Path} {p : Path} {m : Module}
      (h : Legal es running) (hm : (kept es).find? p = some m) : Legal (shared p m :: es) running
  | opened {es : List LoadEvent} {running : List Path} {p : Path} (h : Legal es running)
      (hp : (kept es).find? p = none) : Legal (opened p :: es) (p :: running)
  | closed {es : List LoadEvent} {running : List Path} {p : Path} {m : Module}
      (h : Legal es (p :: running)) : Legal (closed p m :: es) running

variable {es : List LoadEvent} {running : List Path} {p q : Path} {m : Module}

theorem Legal.of_append {later : List LoadEvent} (h : Legal (later ++ es) running) :
    ∃ running, Legal es running := by
  induction later generalizing running with
  | nil => exact ⟨running, h⟩
  | cons e later ih =>
    cases h with
    | shared h _ => exact ih h
    | opened h _ => exact ih h
    | closed h => exact ih h

/-! ### What is kept -/

theorem closed_of_kept (h : (kept es).find? p = some m) :
    ∃ p', (p' == p) = true ∧ closed p' m ∈ es := by
  induction es with
  | nil => cases h
  | cons e es ih =>
    cases e with
    | shared _ _ =>
      obtain ⟨p', hp', hm⟩ := ih h
      exact ⟨p', hp', List.mem_cons_of_mem _ hm⟩
    | opened _ =>
      obtain ⟨p', hp', hm⟩ := ih h
      exact ⟨p', hp', List.mem_cons_of_mem _ hm⟩
    | closed q m' =>
      rw [kept, Table.find?_insert] at h
      split at h
      · next hq =>
        cases h
        exact ⟨q, hq, List.mem_cons_self⟩
      · obtain ⟨p', hp', hm⟩ := ih h
        exact ⟨p', hp', List.mem_cons_of_mem _ hm⟩

theorem kept_of_closed (h : closed q m ∈ es) (hq : (q == p) = true) :
    (kept es).find? p ≠ none := by
  induction es with
  | nil => cases h
  | cons e es ih =>
    cases e with
    | shared _ _ =>
      rcases List.mem_cons.1 h with h | h
      · cases h
      · exact ih h
    | opened _ =>
      rcases List.mem_cons.1 h with h | h
      · cases h
      · exact ih h
    | closed q' m' =>
      rw [kept, Table.find?_insert]
      split
      · exact nofun
      · next hne =>
        rcases List.mem_cons.1 h with h | h
        · cases h
          exact absurd hq hne
        · exact ih h

/-- A file that is running or done was opened. -/
theorem opened_mem_of_legal (h : Legal es running) :
    (∀ p ∈ running, opened p ∈ es) ∧ ∀ p m, closed p m ∈ es → opened p ∈ es := by
  induction h with
  | nil => exact ⟨nofun, nofun⟩
  | shared _ _ ih =>
    refine ⟨fun p hp => List.mem_cons_of_mem _ (ih.1 p hp), fun p m hm => ?_⟩
    rcases List.mem_cons.1 hm with hm | hm
    · cases hm
    · exact List.mem_cons_of_mem _ (ih.2 p m hm)
  | opened _ _ ih =>
    refine ⟨fun p hp => ?_, fun p m hm => ?_⟩
    · rcases List.mem_cons.1 hp with rfl | hp
      · exact List.mem_cons_self
      · exact List.mem_cons_of_mem _ (ih.1 p hp)
    · rcases List.mem_cons.1 hm with hm | hm
      · cases hm
      · exact List.mem_cons_of_mem _ (ih.2 p m hm)
  | closed _ ih =>
    refine ⟨fun p hp => List.mem_cons_of_mem _ (ih.1 p (List.mem_cons_of_mem _ hp)), ?_⟩
    intro p m hm
    rcases List.mem_cons.1 hm with hm | hm
    · cases hm
      exact List.mem_cons_of_mem _ (ih.1 _ List.mem_cons_self)
    · exact List.mem_cons_of_mem _ (ih.2 p m hm)

/-! ### Files by their places -/

section

variable {γ : Type} [DecidableEq γ] (place : Path → γ)

/-- How often the file at a place was opened. -/
def opens (g : γ) : List LoadEvent → Nat
  | [] => 0
  | opened p :: es => opens g es + if place p = g then 1 else 0
  | shared _ _ :: es | closed _ _ :: es => opens g es

/-- How often the file at a place was done. -/
def closes (g : γ) : List LoadEvent → Nat
  | [] => 0
  | closed p _ :: es => closes g es + if place p = g then 1 else 0
  | shared _ _ :: es | opened _ :: es => closes g es

/-- **Every file is loaded once:** its statements run at most once, and all rules that ask for it
get the same members. -/
structure LoadedOnce (es : List LoadEvent) : Prop where
  once : ∀ g, opens place g es ≤ 1
  shared : ∀ e ∈ es, ∀ e' ∈ es, ∀ p m p' m', e.given? = some (p, m) → e'.given? = some (p', m') →
    place p = place p' → m = m'

/-- **The rules ask in a way that the paths tell:** two that ask for one file spell its path alike,
and none asks for a file that is running. -/
structure AskedApart (es : List LoadEvent) : Prop where
  alike : ∀ p p', Asked es p → Asked es p' → place p = place p' → (p == p') = true
  apart : ∀ later e before p, es = later ++ e :: before → e.asked? = some p →
    opens place (place p) before ≤ closes place (place p) before

variable {place}

theorem Asked.later {e : LoadEvent} (h : Asked es p) : Asked (e :: es) p := by
  obtain ⟨a, ha, hp⟩ := h
  exact ⟨a, List.mem_cons_of_mem _ ha, hp⟩

theorem Asked.append (h : Asked es p) (later : List LoadEvent) : Asked (later ++ es) p := by
  induction later with
  | nil => exact h
  | cons e later ih => exact ih.later

theorem asked_of_opened (h : opened p ∈ es) : Asked es p := ⟨_, h, rfl⟩

theorem AskedApart.tail {e : LoadEvent} (h : AskedApart place (e :: es)) : AskedApart place es where
  alike p p' hp hp' := h.alike p p' hp.later hp'.later
  apart later a before p hes := h.apart (e :: later) a before p (by rw [hes]; rfl)

theorem closes_le_opens (h : Legal es running) (g : γ) : closes place g es ≤ opens place g es := by
  -- the surplus of openings is the number of files at this place that are running
  have key : opens place g es = closes place g es + running.countP (place · = g) := by
    induction h with
    | nil => rfl
    | shared _ _ ih => exact ih
    | opened _ _ ih =>
      rw [opens, closes, ih, List.countP_cons]
      simp only [decide_eq_true_eq]
      omega
    | closed _ ih =>
      rw [opens, closes, ih, List.countP_cons]
      simp only [decide_eq_true_eq]
      omega
  omega

theorem opens_append_le (g : γ) (later : List LoadEvent) :
    opens place g es ≤ opens place g (later ++ es) := by
  induction later with
  | nil => exact Nat.le_refl _
  | cons e later ih =>
    cases e with
    | shared _ _ => exact ih
    | opened p => exact Nat.le_trans ih (Nat.le_add_right _ _)
    | closed _ _ => exact ih

theorem exists_closed {g : γ} (h : 0 < closes place g es) :
    ∃ p m, closed p m ∈ es ∧ place p = g := by
  induction es with
  | nil => cases h
  | cons e es ih =>
    cases e with
    | shared _ _ =>
      obtain ⟨p, m, hm, hp⟩ := ih h
      exact ⟨p, m, List.mem_cons_of_mem _ hm, hp⟩
    | opened _ =>
      obtain ⟨p, m, hm, hp⟩ := ih h
      exact ⟨p, m, List.mem_cons_of_mem _ hm, hp⟩
    | closed q m' =>
      by_cases hq : place q = g
      · exact ⟨q, m', List.mem_cons_self, hq⟩
      · rw [closes, if_neg hq] at h
        obtain ⟨p, m, hm, hp⟩ := ih h
        exact ⟨p, m, List.mem_cons_of_mem _ hm, hp⟩

theorem opens_pos (h : opened p ∈ es) : 0 < opens place (place p) es := by
  obtain ⟨later, before, rfl⟩ := List.append_of_mem h
  refine Nat.lt_of_lt_of_le ?_ (opens_append_le _ later)
  rw [opens, if_pos rfl]
  omega

theorem closes_pos (h : closed p m ∈ es) : 0 < closes place (place p) es := by
  induction es with
  | nil => cases h
  | cons e es ih =>
    rcases List.mem_cons.1 h with rfl | h
    · rw [closes, if_pos rfl]
      omega
    · have := ih h
      cases e with
      | shared _ _ => exact this
      | opened _ => exact this
      | closed _ _ => exact Nat.lt_of_lt_of_le this (Nat.le_add_right _ _)

theorem opened_unique (h : ∀ g, opens place g es ≤ 1) (hp : opened p ∈ es) (hq : opened q ∈ es)
    (hpq : place p = place q) : p = q := by
  induction es with
  | nil => cases hp
  | cons e es ih =>
    have hes : ∀ g, opens place g es ≤ 1 := fun g =>
      Nat.le_trans (opens_append_le g [e]) (h g)
    rcases List.mem_cons.1 hp with rfl | hp₁
    · rcases List.mem_cons.1 hq with hq₁ | hq₁
      · cases hq₁
        rfl
      · have hpos : 0 < opens place (place q) es := opens_pos hq₁
        have := h (place p)
        rw [opens, if_pos rfl, hpq] at this
        omega
    · rcases List.mem_cons.1 hq with rfl | hq₁
      · have hpos : 0 < opens place (place p) es := opens_pos hp₁
        have := h (place q)
        rw [opens, if_pos rfl, ← hpq] at this
        omega
      · exact ih hes hp₁ hq₁

theorem closed_unique {m' : Module} (h : ∀ g, closes place g es ≤ 1) (hp : closed p m ∈ es)
    (hq : closed q m' ∈ es) (hpq : place p = place q) : m = m' := by
  induction es with
  | nil => cases hp
  | cons e es ih =>
    have hes : ∀ g, closes place g es ≤ 1 := by
      intro g
      have := h g
      cases e with
      | shared _ _ => exact this
      | opened _ => exact this
      | closed _ _ => exact Nat.le_trans (Nat.le_add_right _ _) this
    rcases List.mem_cons.1 hp with rfl | hp₁
    · rcases List.mem_cons.1 hq with hq₁ | hq₁
      · cases hq₁
        rfl
      · have hpos : 0 < closes place (place q) es := closes_pos hq₁
        have := h (place p)
        rw [closes, if_pos rfl, hpq] at this
        omega
    · rcases List.mem_cons.1 hq with rfl | hq₁
      · have hpos : 0 < closes place (place p) es := closes_pos hp₁
        have := h (place q)
        rw [closes, if_pos rfl, ← hpq] at this
        omega
      · exact ih hes hp₁ hq₁

/-! ### Loading once -/

/-- Members that are shared are those of a file that was done before. -/
theorem closed_of_shared (h : Legal es running) (hs : shared p m ∈ es) :
    ∃ p', (p' == p) = true ∧ closed p' m ∈ es := by
  obtain ⟨later, before, rfl⟩ := List.append_of_mem hs
  obtain ⟨_, hbefore⟩ := h.of_append
  cases hbefore with
  | shared _ hm =>
    obtain ⟨p', hp', hclosed⟩ := closed_of_kept hm
    exact ⟨p', hp', List.mem_append_right _ (List.mem_cons_of_mem _ hclosed)⟩

/-- A rule that asks for a file finds it opened under the same path, if not by itself. -/
theorem opened_of_asked (h : Legal es running) (hp : Asked es p) :
    ∃ p', (p' == p) = true ∧ opened p' ∈ es := by
  obtain ⟨e, he, hp⟩ := hp
  cases e with
  | shared q m =>
    cases hp
    obtain ⟨p', hp', hclosed⟩ := closed_of_shared h he
    exact ⟨p', hp', (opened_mem_of_legal h).2 p' m hclosed⟩
  | opened q =>
    cases hp
    exact ⟨_, BEq.rfl, he⟩
  | closed q m => cases hp

/-- The members that a rule gets are those of a file that was done under the same path. -/
theorem closed_of_given (h : Legal es running) {e : LoadEvent} (he : e ∈ es)
    (hp : e.given? = some (p, m)) : ∃ p', (p' == p) = true ∧ closed p' m ∈ es := by
  cases e with
  | shared q m' =>
    cases hp
    exact closed_of_shared h he
  | opened q => cases hp
  | closed q m' =>
    cases hp
    exact ⟨_, BEq.rfl, he⟩

theorem asked_of_given (h : Legal es running) {e : LoadEvent} (he : e ∈ es)
    (hp : e.given? = some (p, m)) : Asked es p := by
  cases e with
  | shared q m' =>
    cases hp
    exact ⟨_, he, rfl⟩
  | opened q => cases hp
  | closed q m' =>
    cases hp
    exact asked_of_opened ((opened_mem_of_legal h).2 _ _ he)

theorem AskedApart.opens_le_one (h : Legal es running) (ha : AskedApart place es) (g : γ) :
    opens place g es ≤ 1 := by
  induction h with
  | nil => exact Nat.zero_le _
  | shared _ _ ih => exact ih ha.tail
  | closed _ ih => exact ih ha.tail
  | @opened es running p h hp ih =>
    rw [opens]
    split
    · next hg =>
      subst hg
      -- another opening would be of a file that is done, under the same path by `alike`
      have hle := ha.apart [] (.opened p) es p rfl rfl
      rcases Nat.eq_zero_or_pos (opens place (place p) es) with h0 | hpos
      · omega
      · obtain ⟨q, m, hclosed, hq⟩ := exists_closed (Nat.lt_of_lt_of_le hpos hle)
        have hasked := asked_of_opened ((opened_mem_of_legal h).2 q m hclosed)
        have hsame := ha.alike q p hasked.later (asked_of_opened List.mem_cons_self) hq
        exact absurd hp (kept_of_closed hclosed hsame)
    · exact ih ha.tail

/-- **Every file is loaded once** exactly if the rules ask in a way that the paths tell. -/
theorem loadedOnce_iff_asked (h : Legal es [])
    (hplace : ∀ p q, Asked es p → Asked es q → (p == q) = true → place p = place q) :
    LoadedOnce place es ↔ AskedApart place es := by
  constructor
  · intro ho
    refine ⟨?_, ?_⟩
    · -- two paths that are asked for in one place would open its file twice
      intro p p' hp hp' hpp'
      obtain ⟨q, hq, hopened⟩ := opened_of_asked h hp
      obtain ⟨q', hq', hopened'⟩ := opened_of_asked h hp'
      have hqq' : place q = place q' := by
        rw [hplace q p (asked_of_opened hopened) hp hq,
          hplace q' p' (asked_of_opened hopened') hp' hq', hpp']
      have heq := opened_unique ho.once hopened hopened' hqq'
      subst heq
      exact BEq.trans (BEq.symm hq) hq'
    · -- what is asked for was not opened before, unless it is shared, and so done before
      intro later e before p hes hp
      subst hes
      have hopens := Nat.le_trans (opens_append_le (place p) later) (ho.once (place p))
      obtain ⟨_, hb⟩ := h.of_append
      cases hb with
      | shared hb hm =>
        cases hp
        obtain ⟨q, hq, hclosed⟩ := closed_of_kept hm
        have hasked := asked_of_opened ((opened_mem_of_legal hb).2 q _ hclosed)
        have hpos : 0 < closes place (place q) _ := closes_pos hclosed
        rw [hplace q p (hasked.later.append later) ⟨_, List.mem_append_cons_self, rfl⟩ hq] at hpos
        rw [opens] at hopens
        omega
      | opened hb hm =>
        cases hp
        rw [opens, if_pos rfl] at hopens
        omega
      | closed hb => cases hp
  · intro ha
    have once := ha.opens_le_one h
    refine ⟨once, ?_⟩
    intro e he e' he' p m p' m' hp hp' hpp'
    obtain ⟨q, hq, hclosed⟩ := closed_of_given h he hp
    obtain ⟨q', hq', hclosed'⟩ := closed_of_given h he' hp'
    have hqq' : place q = place q' := by
      rw [hplace q p (asked_of_opened ((opened_mem_of_legal h).2 q m hclosed))
          (asked_of_given h he hp) hq,
        hplace q' p' (asked_of_opened ((opened_mem_of_legal h).2 q' m' hclosed'))
          (asked_of_given h he' hp') hq', hpp']
    exact closed_unique (fun g => Nat.le_trans (closes_le_opens h g) (once g)) hclosed hclosed' hqq'

end

end LoadEvent
end Stylesheet
