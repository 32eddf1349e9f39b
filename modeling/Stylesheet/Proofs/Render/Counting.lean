import Mathlib.Data.Int.Range
import Mathlib.Tactic.Ring
import Stylesheet.Proofs.Render.Simulation
import Stylesheet.Render.Exec

/-!
# Loops that count

A `@for` loop goes through the numbers from its first one to its last one, up or down, and runs its
body once for each. It ends early where the body returns or fails, and fails where it has run as
many rounds as are allowed and numbers are left.

* `counted`: the numbers of a loop, in order.
* `Rounds`, `LoopEnds`: rounds that run through, and how a loop ends.
* `run_countTo_iff`: a loop ends as its numbers say.
* `countWordsTo_eq`: a loop that counts in words of 64 bits until it meets its stop is the same.
* `Stmt.for_visits`: all this for the statement.
-/

namespace Stylesheet
namespace Render

variable {σ : Type}

/-! ### The numbers of a loop -/

/-- **The numbers from one to another**, up or down, with the last one or without it. -/
def counted (first last : Int) (inclusive : Bool) : List Int :=
  if first ≤ last then Int.range first (if inclusive then last + 1 else last)
  else (Int.range (if inclusive then last else last + 1) (first + 1)).reverse

/-- So many numbers from an index on, a step apart. -/
def numbers (step : Int) (rounds : Nat) (index : Int) : List Int :=
  (List.range rounds).map fun (r : Nat) => index + step * r

theorem numbers_succ (step : Int) (rounds : Nat) (index : Int) :
    numbers step (rounds + 1) index = index :: numbers step rounds (index + step) := by
  unfold numbers
  rw [List.range_succ_eq_map, List.map_cons, List.map_map]
  have hhead : index + step * ((0 : Nat) : Int) = index := by simp
  have htail : (fun (r : Nat) => index + step * (r : Int)) ∘ Nat.succ =
      fun (r : Nat) => index + step + step * (r : Int) := by
    funext r
    simp only [Function.comp_apply, Nat.cast_succ]
    ring
  rw [hhead, htail]

/-- Numbers that go down are the ascending ones from the end. -/
theorem reverse_range (low high : Int) :
    (Int.range low (high + 1)).reverse = numbers (-1) (high + 1 - low).toNat high := by
  unfold Int.range numbers
  apply List.ext_getElem
  · simp
  · intro i hi hi'
    have hlt : i < (high + 1 - low).toNat := by simpa using hi
    have hwhole : ((high + 1 - low).toNat : Int) = high + 1 - low := by omega
    rw [List.getElem_reverse]
    simp only [List.getElem_map, List.getElem_range, List.length_map, List.length_range]
    omega

/-- **A loop counts** as many rounds as there are numbers. -/
theorem counted_eq_numbers (first last : Int) (inclusive : Bool) :
    counted first last inclusive =
      numbers (if first ≤ last then 1 else -1)
        ((last - first).natAbs + if inclusive then 1 else 0) first := by
  unfold counted
  by_cases h : first ≤ last
  · rw [if_pos h, if_pos h]
    unfold Int.range numbers
    have hlength : ((if inclusive then last + 1 else last) - first).toNat =
        (last - first).natAbs + if inclusive then 1 else 0 := by
      cases inclusive <;> simp only [if_true, Bool.false_eq_true, if_false] <;> omega
    rw [hlength]
    simp only [one_mul]
  · rw [if_neg h, if_neg h, reverse_range]
    have hlength : (first + 1 - if inclusive then last else last + 1).toNat =
        (last - first).natAbs + if inclusive then 1 else 0 := by
      cases inclusive <;> simp only [if_true, Bool.false_eq_true, if_false] <;> omega
    rw [hlength]

/-! ### How loops end -/

variable {α : Type} {round : α → Render σ (Option Value)} {exceeded : Fault}

/-- Rounds for some elements in order, of which none fails or returns. -/
inductive Rounds (round : α → Render σ (Option Value)) : List α → State σ → State σ → Prop
  | nil {s : State σ} : Rounds round [] s s
  | cons {a : α} {as : List α} {s s₁ s' : State σ} :
      (round a).run s = (.ok none, s₁) → Rounds round as s₁ s' → Rounds round (a :: as) s s'

/-- **How a loop through some elements ends**, of which it may run so many rounds. -/
inductive LoopEnds (round : α → Render σ (Option Value)) (exceeded : Fault) (allowed : Nat)
    (as : List α) (s : State σ) : Except RenderError (Option Value) × State σ → Prop
  /-- Every element has its round. -/
  | done {s' : State σ} :
      as.length ≤ allowed → Rounds round as s s' → LoopEnds round exceeded allowed as s (.ok none, s')
  /-- As many rounds as are allowed have run, and elements are left. -/
  | exceeded {s' : State σ} :
      allowed < as.length → Rounds round (as.take allowed) s s' →
      LoopEnds round exceeded allowed as s (.error (.fault exceeded), s')
  /-- The round of an element returns or fails. -/
  | stopped {before after : List α} {a : α} {s₁ s' : State σ}
      {r : Except RenderError (Option Value)} :
      as = before ++ a :: after → before.length < allowed → Rounds round before s s₁ →
      (round a).run s₁ = (r, s') → r ≠ .ok none → LoopEnds round exceeded allowed as s (r, s')

section

variable {allowed : Nat} {a : α} {as : List α} {s s₁ : State σ}
  {o : Except RenderError (Option Value) × State σ}

theorem loopEnds_nil_iff : LoopEnds round exceeded allowed [] s o ↔ o = (.ok none, s) := by
  constructor
  · intro h
    cases h with
    | done _ hrounds =>
      cases hrounds
      rfl
    | exceeded hlt _ => exact absurd hlt (Nat.not_lt_zero _)
    | stopped has => exact absurd has.symm (by simp)
  · rintro rfl
    exact .done (Nat.zero_le _) .nil

theorem loopEnds_none_iff :
    LoopEnds round exceeded 0 (a :: as) s o ↔ o = (.error (.fault exceeded), s) := by
  constructor
  · intro h
    cases h with
    | done hle _ => exact absurd hle (Nat.not_succ_le_zero _)
    | exceeded _ hrounds =>
      cases hrounds
      rfl
    | stopped _ hlt => exact absurd hlt (Nat.not_lt_zero _)
  · rintro rfl
    exact .exceeded (Nat.succ_pos _) .nil

/-- A loop whose first round runs through ends as the rest of it. -/
theorem LoopEnds.cons (hround : (round a).run s = (.ok none, s₁))
    (h : LoopEnds round exceeded allowed as s₁ o) :
    LoopEnds round exceeded (allowed + 1) (a :: as) s o := by
  cases h with
  | done hle hrounds => exact .done (Nat.succ_le_succ hle) (.cons hround hrounds)
  | exceeded hlt hrounds => exact .exceeded (Nat.succ_lt_succ hlt) (.cons hround hrounds)
  | stopped has hlt hrounds hrun hr =>
    subst has
    exact .stopped (List.cons_append ..).symm (Nat.succ_lt_succ hlt) (.cons hround hrounds) hrun hr

/-- **One round** of a loop: it ends the loop, or the rest of the loop follows. -/
theorem loopEnds_cons_iff :
    LoopEnds round exceeded (allowed + 1) (a :: as) s o ↔
      (round a).run s = o ∧ o.1 ≠ .ok none ∨
        ∃ s₁, (round a).run s = (.ok none, s₁) ∧ LoopEnds round exceeded allowed as s₁ o := by
  constructor
  · intro h
    cases h with
    | done hle hrounds =>
      cases hrounds with
      | cons hround hrounds =>
        exact .inr ⟨_, hround, .done (Nat.le_of_succ_le_succ hle) hrounds⟩
    | exceeded hlt hrounds =>
      rw [List.take_succ_cons] at hrounds
      cases hrounds with
      | cons hround hrounds =>
        exact .inr ⟨_, hround, .exceeded (Nat.lt_of_succ_lt_succ hlt) hrounds⟩
    | stopped has hlt hrounds hrun hr =>
      -- the round that stops the loop is the first one or one behind it
      cases hrounds with
      | nil =>
        obtain ⟨rfl, rfl⟩ := List.cons.inj has
        exact .inl ⟨hrun, hr⟩
      | cons hround hrounds =>
        obtain ⟨rfl, rfl⟩ := List.cons.inj has
        exact .inr ⟨_, hround, .stopped rfl (Nat.lt_of_succ_lt_succ hlt) hrounds hrun hr⟩
  · rintro (⟨hrun, hr⟩ | ⟨s₁, hround, hrest⟩)
    · exact .stopped (List.nil_append _).symm (Nat.succ_pos _) .nil hrun hr
    · exact hrest.cons hround

end

/-! ### Counting -/

/-- **Counting ends** as a loop through the numbers. -/
theorem run_count_iff {limit : Nat} {step : Int} {round : Int → Render σ (Option Value)}
    {allowed rounds : Nat} {index : Int} {s : State σ}
    {o : Except RenderError (Option Value) × State σ} :
    (count limit step round allowed rounds index).run s = o ↔
      LoopEnds round (.loopLimit "for" limit) allowed (numbers step rounds index) s o := by
  induction rounds generalizing allowed index s with
  | zero =>
    have hnone : numbers step 0 index = [] := rfl
    have hcount : (count limit step round allowed 0 index).run s = (.ok none, s) := by
      cases allowed <;> rfl
    rw [hnone, loopEnds_nil_iff, hcount, eq_comm]
  | succ rounds ih =>
    rw [numbers_succ]
    cases allowed with
    | zero =>
      have hcount : (count limit step round 0 (rounds + 1) index).run s =
          (.error (.fault (.loopLimit "for" limit)), s) := rfl
      rw [loopEnds_none_iff, hcount, eq_comm]
    | succ allowed =>
      rw [loopEnds_cons_iff, count, run_bind]
      rcases hround : (round index).run s with ⟨e | v, s₁⟩
      · -- the round fails
        constructor
        · rintro rfl
          exact .inl ⟨rfl, nofun⟩
        · rintro (⟨ho, _⟩ | ⟨s₂, hnone, _⟩)
          · exact ho
          · cases hnone
      · cases v with
        | none =>
          dsimp only
          rw [ih]
          constructor
          · intro h
            exact .inr ⟨s₁, rfl, h⟩
          · rintro (⟨rfl, hr⟩ | ⟨s₂, hnone, h⟩)
            · exact absurd rfl hr
            · cases hnone
              exact h
        | some v =>
          -- the round returns
          have hpure : (pure (some v) : Render σ (Option Value)).run s₁ = (.ok (some v), s₁) := rfl
          dsimp only
          rw [hpure]
          constructor
          · rintro rfl
            exact .inl ⟨rfl, nofun⟩
          · rintro (⟨ho, _⟩ | ⟨s₂, hnone, _⟩)
            · exact ho
            · cases hnone

/-- **A loop that counts ends** as its numbers say. -/
theorem run_countTo_iff {limit : Nat} {first last : Int} {inclusive : Bool}
    {round : Int → Render σ (Option Value)} {s : State σ}
    {o : Except RenderError (Option Value) × State σ} :
    (countTo limit first last inclusive round).run s = o ↔
      LoopEnds round (.loopLimit "for" limit) limit (counted first last inclusive) s o := by
  rw [counted_eq_numbers]
  exact run_count_iff

/-! ### Counting in words -/

/-- A loop that counts in words of 64 bits until it meets its stop. The rounds are counted beside
it, and the count is checked before each round. -/
def countWords (limit : Nat) (step stop : Int64) (round : Int → Render σ (Option Value)) :
    (allowed : Nat) → (index : Int64) → Render σ (Option Value)
  | 0, index => if index = stop then pure none else fault (.loopLimit "for" limit)
  | allowed + 1, index =>
      if index = stop then pure none
      else do
        match ← round index.toInt with
        | some v => return some v
        | none => countWords limit step stop round allowed (index + step)

/-- A loop in words from one number to another. Its stop is a step behind the last number, if that
belongs to the loop. -/
def countWordsTo (limit : Nat) (first last : Int64) (inclusive : Bool)
    (round : Int → Render σ (Option Value)) : Render σ (Option Value) :=
  let step : Int64 := if first ≤ last then 1 else -1
  countWords limit step (if inclusive then last + step else last) round limit first

/-- Words add up to the sum of their numbers if it is a word. -/
theorem toInt_add_of_fits {a b : Int64} (hlow : -2 ^ 63 ≤ a.toInt + b.toInt)
    (hhigh : a.toInt + b.toInt < 2 ^ 63) : (a + b).toInt = a.toInt + b.toInt := by
  rw [Int64.toInt_add]
  apply Int.bmod_eq_of_le <;> omega

/-- **Counting in words** meets the stop after as many rounds as lie before it. -/
theorem countWords_eq (limit : Nat) {step stop : Int64}
    (hstep : step.toInt = 1 ∨ step.toInt = -1) (round : Int → Render σ (Option Value))
    (allowed : Nat) {rounds : Nat} {index : Int64}
    (hstop : index.toInt + step.toInt * rounds = stop.toInt) :
    countWords limit step stop round allowed index =
      count limit step.toInt round allowed rounds index.toInt := by
  have hlow := stop.le_toInt
  have hhigh := stop.toInt_lt
  have hlow' := index.le_toInt
  have hhigh' := index.toInt_lt
  induction rounds generalizing allowed index with
  | zero =>
    have hmet : index = stop := by
      rw [← Int64.toInt_inj, ← hstop]
      simp
    cases allowed <;> rw [countWords, if_pos hmet, count]
  | succ rounds ih =>
    have hnext : index.toInt + step.toInt + step.toInt * rounds = stop.toInt := by
      rw [← hstop, Nat.cast_succ]
      ring
    have hne : index ≠ stop := by
      rintro rfl
      rcases hstep with h | h <;> rw [h] at hstop <;> omega
    cases allowed with
    | zero => rw [countWords, if_neg hne, count]
    | succ allowed =>
      -- the next index lies between this one and the stop, so it is a word
      have hfits : (index + step).toInt = index.toInt + step.toInt := by
        apply toInt_add_of_fits <;> rcases hstep with h | h <;> rw [h] at hnext ⊢ <;> omega
      have hrest : countWords limit step stop round allowed (index + step) =
          count limit step.toInt round allowed rounds (index.toInt + step.toInt) := by
        rw [ih allowed (by rw [hfits, hnext]) (index + step).le_toInt (index + step).toInt_lt, hfits]
      rw [countWords, if_neg hne, count]
      refine bind_congr fun r => ?_
      cases r with
      | some v => rfl
      | none => exact hrest

/-- **A loop in words is the loop in numbers**, as long as the numbers beside the last one are
words. -/
theorem countWordsTo_eq (limit : Nat) (first last : Int64) (inclusive : Bool)
    (round : Int → Render σ (Option Value)) (hlow : -2 ^ 63 ≤ last.toInt - 1)
    (hhigh : last.toInt + 1 < 2 ^ 63) :
    countWordsTo limit first last inclusive round =
      countTo limit first.toInt last.toInt inclusive round := by
  have hone : (1 : Int64).toInt = 1 := by decide
  have hminus : (-1 : Int64).toInt = -1 := by decide
  unfold countWordsTo countTo
  by_cases h : first ≤ last
  · have hle : first.toInt ≤ last.toInt := Int64.le_iff_toInt_le.1 h
    have hadd : (last + 1).toInt = last.toInt + 1 := by
      rw [toInt_add_of_fits] <;> rw [hone] <;> omega
    simp only [if_pos h, if_pos hle]
    rw [countWords_eq limit (.inl hone), hone]
    cases inclusive <;> simp only [if_true, Bool.false_eq_true, if_false, hone, hadd] <;> omega
  · have hle : ¬ first.toInt ≤ last.toInt := fun hle => h (Int64.le_iff_toInt_le.2 hle)
    have hadd : (last + -1).toInt = last.toInt + -1 := by
      rw [toInt_add_of_fits] <;> rw [hminus] <;> omega
    simp only [if_neg h, if_neg hle]
    rw [countWords_eq limit (.inr hminus), hminus]
    cases inclusive <;> simp only [if_true, Bool.false_eq_true, if_false, hminus, hadd] <;> omega

end Render

/-! ### The statement -/

section

open Render

variable {σ : Type}

/-- The numbers between which a `@for` loop counts, and the unit of the first one. -/
def ForHeader.bounds (host : Host σ) (caller : Caller σ) (h : ForHeader) :
    Render σ (Int × Option String × Int) := do
  let (first, unit) ← integer (← h.first.eval host caller)
  let (last, _) ← integer (← h.last.eval host caller)
  return (first, unit, last)

/-- The scope of one round of a `@for` loop. -/
def ForHeader.scope (h : ForHeader) (unit : Option String) (i : Int) : Scope :=
  ⟨Table.empty.insert h.counter (.number (Float.ofInt i) unit), true⟩

/-- The scope of a round holds its number, whatever stands in the scopes around it. -/
theorem ForHeader.find?_scope (h : ForHeader) (unit : Option String) (i : Int) (s : Scopes) :
    (s.push (h.scope unit i)).find? h.counter = some (.number (Float.ofInt i) unit) := by
  have hlocal : (h.scope unit i).bindings.find? h.counter = some (.number (Float.ofInt i) unit) := by
    unfold ForHeader.scope
    rw [Table.find?_insert, beq_self_eq_true, if_pos rfl]
  unfold Scopes.find? Scopes.push Scopes.findLocal?
  rw [hlocal, Option.some_or, Option.some_or]

variable [Log.Sink σ] (host : Host σ) (limits : Limits) (caller : Caller σ) (place : Place σ)

/-- One round of a `@for` loop. -/
def Stmt.round (h : ForHeader) (body : List Stmt) (unit : Option String) (i : Int) :
    Render σ (Option Value) :=
  inScope (h.scope unit i) (Stmt.execAll host limits caller place.inner body)

/-- A `@for` loop counts from one bound to the other. -/
theorem Stmt.exec_for (h : ForHeader) (body : List Stmt) :
    Stmt.exec host limits caller place (.for (.ok h) body) = (do
      let (first, unit, last) ← h.bounds host caller
      countTo limits.rounds first last h.inclusive
        (Stmt.round host limits caller place h body unit)) := by
  rw [Stmt.exec]
  unfold ForHeader.bounds
  simp only [ofFault, pure_bind, bind_assoc]
  rfl

/-- **A `@for` loop visits exactly its range.** Once the bounds are evaluated, the body runs once
for each number from the first to the last, in order, each time in a new scope that holds the
number with the unit of the first bound. A round that returns or fails ends the loop there; if there
are more numbers than rounds allowed, the loop fails behind the last round that is. A loop that
counts in words until it meets its stop does the same, as long as the numbers beside the last bound
are words. -/
theorem Stmt.for_visits (h : ForHeader) (body : List Stmt) :
    (∀ s o, (Stmt.exec host limits caller place (.for (.ok h) body)).run s = o ↔
      (∃ e s', (h.bounds host caller).run s = (.error e, s') ∧ o = (.error e, s')) ∨
      ∃ first unit last s', (h.bounds host caller).run s = (.ok (first, unit, last), s') ∧
        LoopEnds (Stmt.round host limits caller place h body unit) (.loopLimit "for" limits.rounds)
          limits.rounds (counted first last h.inclusive) s' o) ∧
    (∀ unit i (s : Scopes),
      (s.push (h.scope unit i)).find? h.counter = some (.number (Float.ofInt i) unit)) ∧
    ∀ first last : Int64, -2 ^ 63 ≤ last.toInt - 1 → last.toInt + 1 < 2 ^ 63 → ∀ unit s o,
      (countWordsTo limits.rounds first last h.inclusive
        (Stmt.round host limits caller place h body unit)).run s = o ↔
      LoopEnds (Stmt.round host limits caller place h body unit) (.loopLimit "for" limits.rounds)
        limits.rounds (counted first.toInt last.toInt h.inclusive) s o := by
  refine ⟨?_, h.find?_scope, ?_⟩
  · intro s o
    rw [Stmt.exec_for, run_bind]
    rcases hbounds : (h.bounds host caller).run s with ⟨e | ⟨first, unit, last⟩, s'⟩
    · constructor
      · rintro rfl
        exact .inl ⟨e, s', rfl, rfl⟩
      · rintro (⟨_, _, heq, rfl⟩ | ⟨_, _, _, _, heq, _⟩)
        · cases heq
          rfl
        · cases heq
    · dsimp only
      rw [run_countTo_iff]
      constructor
      · intro hends
        exact .inr ⟨first, unit, last, s', rfl, hends⟩
      · rintro (⟨_, _, heq, _⟩ | ⟨_, _, _, _, heq, hends⟩)
        · cases heq
        · cases heq
          exact hends
  · intro first last hlow hhigh unit s o
    rw [countWordsTo_eq _ _ _ _ _ hlow hhigh, run_countTo_iff]

/-- A loop from 3 down to 1 of which two rounds are allowed fails behind the second one. It makes no
difference that its body assigns the variable. -/
theorem Stmt.for_visits_down :
    let _ : Log.Sink Unit := ⟨fun _ _ => ()⟩
    let host : Host Unit := ⟨fun _ _ => pure (.error ""), .empty, fun _ => .error .notFound⟩
    let limits : Limits := ⟨0, 0, 2⟩
    let h : ForHeader := ⟨.ofString "i", .literal .null, .literal .null, true⟩
    let body : List Stmt := [.declare "i" (.literal (.number 9 none)) false false]
    let s : State Unit := ⟨.start .empty none, .empty, ()⟩
    (countWordsTo 2 3 1 true (Stmt.round host limits (callAt host limits 0) .loop h body none)).run s =
      (.error (.fault (.loopLimit "for" 2)), s) := by
  intro _ host limits h body s
  have hwords := (Stmt.for_visits host limits (callAt host limits 0) .loop h body).2.2 3 1
    (by decide) (by decide) none s (.error (.fault (.loopLimit "for" 2)), s)
  have hround (i : Int) :
      (Stmt.round host limits (callAt host limits 0) .loop h body none i).run s = (.ok none, s) := rfl
  exact hwords.2 (.exceeded (by decide) (.cons (hround 3) (.cons (hround 2) .nil)))

end

end Stylesheet
