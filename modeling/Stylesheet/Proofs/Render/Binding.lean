import Stylesheet.Proofs.Render.Frames

/-!
# Binding arguments

The arguments of a call go to the parameters of the function one after the other. Here it is said at
once what supplies each parameter and which arguments fit the parameters, and the binding is what
that says: no argument is lost and none is bound twice.

* `Arguments.supply`, `Arguments.Fits`: what supplies a parameter, and which arguments fit.
* `Binds`: parameters bound to their supplies, from left to right.
* `Render.bind_outcome`: binding arguments that fit, and arguments that do not.
-/

namespace Stylesheet

/-- Only the last parameter that a function declares takes all arguments that are left. -/
theorem Rule.rest_of_signature {params : List Node} {sig : Signature}
    (h : Rule.signature params = .ok sig) : ∀ p ∈ sig.parameters.dropLast, p.rest = false := by
  unfold Rule.signature at h
  split at h
  · cases h
  · next call _ =>
    dsimp only at h
    cases hps : (Rule.parts ((call.children[1]?.map Node.children).getD [])).mapM
      (Rule.parameter ((call.children.head?.map Node.text).getD "")) with
    | error fault =>
      rw [hps] at h
      cases h
    | ok ps =>
      rw [hps] at h
      change (if _ then _ else _) = Except.ok sig at h
      split at h
      · cases h
      · next hany =>
        cases h
        simpa using hany

/-- The name of a parameter. -/
def Parameter.key (p : Parameter) : Name := .ofString p.name

/-- Where the value of a parameter comes from. -/
inductive Supply where
  | argument (v : Value)
  | default (e : Expr)
  | missing

namespace Arguments

def keywords (args : Arguments) : List Name := args.named.map (·.1)

/-- **What supplies the parameter at a place**: the positional argument at this place, the argument
with its name, or its default. The last parameter may take all positional arguments from its place
on. -/
def supply (args : Arguments) (i : Nat) (p : Parameter) : Supply :=
  if p.rest then .argument (.list (args.positional.drop i) .comma)
  else
    match args.positional[i]?, args.named.find? (·.1 = p.key), p.default with
    | some v, _, _ => .argument v
    | none, some (_, v), _ => .argument v
    | none, none, some e => .default e
    | none, none, none => .missing

/-- The parameters with what supplies them. -/
def supplies (args : Arguments) (ps : List Parameter) : List (Name × Supply) :=
  ps.mapIdx fun i p => (p.key, args.supply i p)

/-- **The arguments fit the parameters.** -/
structure Fits (args : Arguments) (ps : List Parameter) : Prop where
  /-- Each parameter has a value. -/
  covered : ∀ i p, ps[i]? = some p → p.rest = true ∨ i < args.positional.length ∨
    p.key ∈ args.keywords ∨ p.default.isSome = true
  /-- Each positional argument has a parameter. -/
  room : args.positional.length ≤ ps.length ∨ ∃ p ∈ ps, p.rest = true
  /-- No keyword comes twice. -/
  once : args.keywords.Nodup
  /-- Each keyword is the name of a single parameter that has no positional argument. -/
  known : ∀ k ∈ args.keywords, ∃ i p, ps[i]? = some p ∧ p.rest = false ∧ p.key = k ∧
    args.positional.length ≤ i

/-! ### One parameter after the other -/

variable {p : Parameter} {ps : List Parameter} {v : Value} {vs : List Value}
  {ks ks' : List (Name × Value)}

theorem fits_nil_iff (args : Arguments) :
    args.Fits [] ↔ args.positional = [] ∧ args.named = [] := by
  constructor
  · intro h
    refine ⟨?_, ?_⟩
    · simpa using h.room
    · cases hn : args.named with
      | nil => rfl
      | cons k ks =>
        obtain ⟨i, p, hp, -⟩ := h.known k.1 (by simp [keywords, hn])
        simp at hp
  · obtain ⟨vs, ks⟩ := args
    rintro ⟨rfl, rfl⟩
    exact ⟨by simp, .inl (Nat.le_refl _), .nil, nofun⟩

/-- The parameter for all arguments that are left takes no keyword. -/
theorem fits_rest_iff (hp : p.rest = true) (args : Arguments) :
    args.Fits [p] ↔ Fits ⟨[], args.named⟩ [] := by
  rw [fits_nil_iff, and_iff_right rfl]
  constructor
  · intro h
    cases hn : args.named with
    | nil => rfl
    | cons k ks =>
      obtain ⟨i, q, hq, hrest, -⟩ := h.known k.1 (by simp [keywords, hn])
      obtain rfl : q = p := List.mem_singleton.1 (List.mem_of_getElem? hq)
      rw [hp] at hrest
      cases hrest
  · intro (hn : args.named = [])
    have hkeys : args.keywords = [] := by simp [keywords, hn]
    refine ⟨fun i q hq => .inl ?_, .inr ⟨p, List.mem_singleton_self p, hp⟩, ?_, ?_⟩
    · obtain rfl : q = p := List.mem_singleton.1 (List.mem_of_getElem? hq)
      exact hp
    · rw [hkeys]
      exact .nil
    · rw [hkeys]
      nofun

/-- A positional argument goes to the first parameter. -/
theorem fits_positional_iff (hp : p.rest = false) :
    Fits ⟨v :: vs, ks⟩ (p :: ps) ↔ Fits ⟨vs, ks⟩ ps := by
  constructor
  · intro h
    refine ⟨fun i q hq => ?_, ?_, h.once, fun k hk => ?_⟩
    · simpa [keywords] using h.covered (i + 1) q (by simpa using hq)
    · simpa [hp] using h.room
    · obtain ⟨i, q, hq, hrest, hkey, hle⟩ := h.known k hk
      obtain ⟨j, rfl⟩ := Nat.exists_eq_add_one.2 (Nat.lt_of_lt_of_le (Nat.succ_pos _) hle)
      exact ⟨j, q, by simpa using hq, hrest, hkey, by simpa using hle⟩
  · intro h
    refine ⟨fun i q hq => ?_, ?_, h.once, fun k hk => ?_⟩
    · cases i with
      | zero => exact .inr (.inl (Nat.succ_pos _))
      | succ i => simpa [keywords] using h.covered i q (by simpa using hq)
    · simpa [hp] using h.room
    · obtain ⟨i, q, hq, hrest, hkey, hle⟩ := h.known k hk
      exact ⟨i + 1, q, by simpa using hq, hrest, hkey, by simpa using hle⟩

/-- A parameter of another name takes no keyword away. -/
theorem mem_keywords_of_ne {n k : Name} (a b : List (Name × Value)) (w : Value) (hne : k ≠ n) :
    k ∈ keywords ⟨[], a ++ (n, w) :: b⟩ ↔ k ∈ keywords ⟨[], a ++ b⟩ := by
  simp [keywords, hne]

/-- An argument with the name of the first parameter goes to it. -/
theorem fits_named_iff (hp : p.rest = false) (hkey : ∀ q ∈ ps, q.key ≠ p.key)
    (a b : List (Name × Value)) :
    Fits ⟨[], a ++ (p.key, v) :: b⟩ (p :: ps) ↔ Fits ⟨[], a ++ b⟩ ps := by
  have hperm : (keywords ⟨[], a ++ (p.key, v) :: b⟩).Nodup ↔
      p.key ∉ keywords ⟨[], a ++ b⟩ ∧ (keywords ⟨[], a ++ b⟩).Nodup := by
    simp only [keywords, List.map_append, List.map_cons]
    rw [List.perm_middle.nodup_iff, List.nodup_cons]
  constructor
  · intro h
    obtain ⟨hnot, honce⟩ := hperm.1 h.once
    refine ⟨fun i q hq => ?_, .inl (Nat.zero_le _), honce, fun k hk => ?_⟩
    · have hne := hkey q (List.mem_of_getElem? hq)
      have := h.covered (i + 1) q (by simpa using hq)
      rw [mem_keywords_of_ne a b v hne] at this
      simpa using this
    · have hne : k ≠ p.key := fun heq => hnot (heq ▸ hk)
      obtain ⟨i, q, hq, hrest, rfl, -⟩ := h.known k ((mem_keywords_of_ne a b v hne).2 hk)
      cases i with
      | zero =>
        obtain rfl : p = q := by simpa using hq
        exact absurd rfl hne
      | succ i => exact ⟨i, q, by simpa using hq, hrest, rfl, Nat.zero_le _⟩
  · intro h
    have hnot : p.key ∉ keywords ⟨[], a ++ b⟩ := fun hk => by
      obtain ⟨i, q, hq, -, heq, -⟩ := h.known p.key hk
      exact hkey q (List.mem_of_getElem? hq) heq
    refine ⟨fun i q hq => ?_, .inl (Nat.zero_le _), hperm.2 ⟨hnot, h.once⟩, fun k hk => ?_⟩
    · cases i with
      | zero =>
        obtain rfl : p = q := by simpa using hq
        exact .inr (.inr (.inl (by simp [keywords])))
      | succ i =>
        have hq : ps[i]? = some q := by simpa using hq
        rw [mem_keywords_of_ne a b v (hkey q (List.mem_of_getElem? hq))]
        simpa using h.covered i q hq
    · by_cases hne : k = p.key
      · exact ⟨0, p, rfl, hp, hne.symm, Nat.le_refl _⟩
      · obtain ⟨i, q, hq, hrest, heq, -⟩ := h.known k ((mem_keywords_of_ne a b v hne).1 hk)
        exact ⟨i + 1, q, by simpa using hq, hrest, heq, Nat.zero_le _⟩

/-- The first parameter needs no argument if it has a default. -/
theorem fits_default_iff (hkey : p.key ∉ ks.map (·.1)) (hdefault : p.default.isSome = true) :
    Fits ⟨[], ks⟩ (p :: ps) ↔ Fits ⟨[], ks⟩ ps := by
  constructor
  · intro h
    refine ⟨fun i q hq => ?_, .inl (Nat.zero_le _), h.once, fun k hk => ?_⟩
    · simpa using h.covered (i + 1) q (by simpa using hq)
    · obtain ⟨i, q, hq, hrest, rfl, -⟩ := h.known k hk
      cases i with
      | zero =>
        obtain rfl : p = q := by simpa using hq
        exact absurd hk hkey
      | succ i => exact ⟨i, q, by simpa using hq, hrest, rfl, Nat.zero_le _⟩
  · intro h
    refine ⟨fun i q hq => ?_, .inl (Nat.zero_le _), h.once, fun k hk => ?_⟩
    · cases i with
      | zero =>
        obtain rfl : p = q := by simpa using hq
        exact .inr (.inr (.inr hdefault))
      | succ i => simpa using h.covered i q (by simpa using hq)
    · obtain ⟨i, q, hq, hrest, heq, -⟩ := h.known k hk
      exact ⟨i + 1, q, by simpa using hq, hrest, heq, Nat.zero_le _⟩

theorem not_fits_of_missing (hp : p.rest = false) (hkey : p.key ∉ ks.map (·.1))
    (hdefault : p.default = none) : ¬ Fits ⟨[], ks⟩ (p :: ps) := by
  intro h
  rcases h.covered 0 p rfl with hrest | hlt | hk | hsome
  · rw [hp] at hrest
    cases hrest
  · cases hlt
  · exact hkey hk
  · rw [hdefault] at hsome
    cases hsome

/-! ### Supplies -/

/-- The supplies of all parameters, from what supplies the first and the others. -/
theorem supplies_cons {args args' : Arguments} {first : Supply} (hfirst : args.supply 0 p = first)
    (h : ∀ i, ∀ q ∈ ps, args.supply (i + 1) q = args'.supply i q) :
    args.supplies (p :: ps) = (p.key, first) :: args'.supplies ps := by
  rw [supplies, List.mapIdx_cons, supplies, hfirst]
  congr 1
  refine List.ext_getElem? fun i => ?_
  rw [List.getElem?_mapIdx, List.getElem?_mapIdx]
  cases hq : ps[i]? with
  | none => rfl
  | some q => simp [h i q (List.mem_of_getElem? hq)]

theorem supplies_rest (hp : p.rest = true) (args : Arguments) :
    args.supplies [p] =
      (p.key, .argument (.list args.positional .comma)) :: supplies ⟨[], args.named⟩ [] := by
  simp [supplies, supply, hp]

theorem supplies_positional (hp : p.rest = false) :
    supplies ⟨v :: vs, ks⟩ (p :: ps) = (p.key, .argument v) :: supplies ⟨vs, ks⟩ ps := by
  refine supplies_cons ?_ fun i q _ => ?_
  · simp [supply, hp]
  · simp [supply]

theorem supplies_named (hp : p.rest = false) (hkey : ∀ q ∈ ps, q.key ≠ p.key)
    {a b : List (Name × Value)} (ha : p.key ∉ a.map (·.1)) :
    supplies ⟨[], a ++ (p.key, v) :: b⟩ (p :: ps) =
      (p.key, .argument v) :: supplies ⟨[], a ++ b⟩ ps := by
  have hnone : a.find? (·.1 = p.key) = none := by
    simp only [List.find?_eq_none, decide_eq_true_eq]
    exact fun k hk heq => ha (heq ▸ List.mem_map_of_mem hk)
  refine supplies_cons ?_ fun i q hq => ?_
  · simp [supply, hp, List.find?_append, hnone]
  · have hne := (hkey q hq).symm
    simp [supply, List.find?_append, hne]

theorem supplies_default (hp : p.rest = false) (hkey : p.key ∉ ks.map (·.1)) {e : Expr}
    (hdefault : p.default = some e) :
    supplies ⟨[], ks⟩ (p :: ps) = (p.key, .default e) :: supplies ⟨[], ks⟩ ps := by
  have hnone : ks.find? (·.1 = p.key) = none := by
    simp only [List.find?_eq_none, decide_eq_true_eq]
    exact fun k hk heq => hkey (heq ▸ List.mem_map_of_mem hk)
  refine supplies_cons ?_ fun i q _ => ?_
  · simp [supply, hp, hnone, hdefault]
  · simp [supply]

theorem default_of_mem_supplies {args : Arguments} {n : Name} {e : Expr}
    (h : (n, .default e) ∈ args.supplies ps) : ∃ p ∈ ps, p.default = some e := by
  obtain ⟨i, hi, heq⟩ := List.mem_mapIdx.1 h
  refine ⟨ps[i], List.getElem_mem hi, ?_⟩
  have hsupply : args.supply i ps[i] = .default e := congrArg Prod.snd heq
  unfold supply at hsupply
  split at hsupply
  · cases hsupply
  · split at hsupply
    all_goals cases hsupply
    assumption

/-- Arguments with keywords are found by the names of their parameters. -/
theorem takeNamed_cases (n : Name) (ks : List (Name × Value)) :
    (∃ v a b, ks = a ++ (n, v) :: b ∧ n ∉ a.map (·.1) ∧
      Eval.takeNamed n ks = some (v, a ++ b)) ∨
      n ∉ ks.map (·.1) ∧ Eval.takeNamed n ks = none := by
  induction ks with
  | nil => exact .inr ⟨nofun, rfl⟩
  | cons k ks ih =>
    obtain ⟨m, w⟩ := k
    by_cases hm : m = n
    · subst hm
      exact .inl ⟨w, [], ks, rfl, nofun, by simp [Eval.takeNamed]⟩
    · have hne : n ≠ m := fun h => hm h.symm
      rcases ih with ⟨v, a, b, rfl, ha, htake⟩ | ⟨hks, htake⟩
      · exact .inl ⟨v, (m, w) :: a, b, rfl, by simpa [hne] using ha,
          by simp [Eval.takeNamed, hm, htake]⟩
      · exact .inr ⟨by simpa [hne] using hks, by simp [Eval.takeNamed, hm, htake]⟩

end Arguments

/-! ### The frame -/

variable {σ : Type}

/-- The same state in a frame that binds the given names. -/
def State.withFrame (s : State σ) (bound : List (Name × Value)) : State σ :=
  s.withLocals [⟨⟨bound⟩, false⟩]

theorem Table.put_of_notMem {n : Name} (v : Value) {es : List (Name × Value)}
    (h : n ∉ es.map (·.1)) : Table.put n v es = es ++ [(n, v)] := by
  induction es with
  | nil => rfl
  | cons e es ih =>
    rw [List.map_cons, List.mem_cons, not_or] at h
    rw [Table.put, if_neg (by simpa using fun heq => h.1 heq.symm), ih h.2]
    rfl

/-- **Parameters bound to their supplies**, from left to right, behind others that are bound. A
default is evaluated where nothing but the parameters before it is bound; if it fails, so does the
binding. At the end nothing else is bound in the frame. -/
inductive Binds (value : Expr → Render σ Value) : List (Name × Value) → List (Name × Supply) →
    State σ → Except RenderError (List (Name × Value)) → State σ → Prop
  | done {bound : List (Name × Value)} {s : State σ} :
      Binds value bound [] s (.ok bound) (s.withFrame bound)
  | argument {bound : List (Name × Value)} {n : Name} {v : Value} {rest : List (Name × Supply)}
      {s s' : State σ} {r : Except RenderError (List (Name × Value))} :
      Binds value (bound ++ [(n, v)]) rest s r s' →
        Binds value bound ((n, .argument v) :: rest) s r s'
  | default {bound : List (Name × Value)} {n : Name} {e : Expr} {v : Value}
      {rest : List (Name × Supply)} {s t s' : State σ}
      {r : Except RenderError (List (Name × Value))} :
      (value e).run (s.withFrame bound) = (.ok v, t) → Binds value (bound ++ [(n, v)]) rest t r s' →
        Binds value bound ((n, .default e) :: rest) s r s'
  | fails {bound : List (Name × Value)} {n : Name} {e : Expr} {rest : List (Name × Supply)}
      {s s' : State σ} {error : RenderError} :
      (value e).run (s.withFrame bound) = (.error error, s') →
        Binds value bound ((n, .default e) :: rest) s (.error error) s'

/-- What a supply gives where the given names are bound: an argument itself, and the value of a
default. -/
inductive Supply.Gives (value : Expr → Render σ Value) (bound : List (Name × Value)) :
    Supply → Value → Prop
  | argument {v : Value} : Gives value bound (.argument v) v
  | default {e : Expr} {v : Value} {s t : State σ} :
      (value e).run (s.withFrame bound) = (.ok v, t) → Gives value bound (.default e) v

namespace Binds

variable {value : Expr → Render σ Value} {bound all : List (Name × Value)}
  {supplies : List (Name × Supply)} {s s' : State σ} {r : Except RenderError (List (Name × Value))}

/-- **What a frame holds in the end**: a value for each of the supplies, which is what the supply
gives where those before it are bound, and nothing else. -/
theorem frame (h : Binds value bound supplies s (.ok all) s') :
    s'.sheet.scopes.locals = [⟨⟨all⟩, false⟩] ∧
      ∃ more, all = bound ++ more ∧ more.length = supplies.length ∧
        ∀ i n (supply : Supply), supplies[i]? = some (n, supply) →
          ∃ v, more[i]? = some (n, v) ∧ supply.Gives value (bound ++ more.take i) v := by
  generalize hr : Except.ok all = r at h
  induction h with
  | done =>
    cases hr
    exact ⟨rfl, [], (List.append_nil _).symm, rfl, nofun⟩
  | @argument bound n v rest s s' r _ ih =>
    obtain ⟨hlocals, more, rfl, hlength, hmore⟩ := ih hr
    refine ⟨hlocals, (n, v) :: more, List.append_assoc _ _ _, congrArg (· + 1) hlength, ?_⟩
    rintro (_ | i) m supply hi
    · obtain ⟨rfl, rfl⟩ : n = m ∧ Supply.argument v = supply := by simpa using hi
      exact ⟨v, rfl, .argument⟩
    · obtain ⟨w, hw, hgives⟩ := hmore i m supply hi
      exact ⟨w, hw, by simpa using hgives⟩
  | @default bound n e v rest s t s' r hrun _ ih =>
    obtain ⟨hlocals, more, rfl, hlength, hmore⟩ := ih hr
    refine ⟨hlocals, (n, v) :: more, List.append_assoc _ _ _, congrArg (· + 1) hlength, ?_⟩
    rintro (_ | i) m supply hi
    · obtain ⟨rfl, rfl⟩ : n = m ∧ Supply.default e = supply := by simpa using hi
      exact ⟨v, rfl, by simpa using .default hrun⟩
    · obtain ⟨w, hw, hgives⟩ := hmore i m supply hi
      exact ⟨w, hw, by simpa using hgives⟩
  | fails => cases hr

/-- A binding fails only because a default does. -/
theorem error_of_default {error : RenderError}
    (h : Binds value bound supplies s (.error error) s') :
    ∃ n e before t, (n, .default e) ∈ supplies ∧
      (value e).run (State.withFrame t before) = (.error error, s') := by
  generalize hr : Except.error error = r at h
  induction h with
  | done => cases hr
  | argument _ ih | default _ _ ih =>
    obtain ⟨n, e, before, t, hmem, hrun⟩ := ih hr
    exact ⟨n, e, before, t, List.mem_cons_of_mem _ hmem, hrun⟩
  | @fails bound n e rest s s' error' hrun =>
    cases hr
    exact ⟨n, e, bound, s, List.mem_cons_self, hrun⟩

end Binds

namespace Render

theorem run_assign {n : Name} (v : Value) {bound : List (Name × Value)} (s : State σ)
    (h : n ∉ bound.map (·.1)) :
    (Eval.assign n v).run (s.withFrame bound) = (.ok (), s.withFrame (bound ++ [(n, v)])) := by
  have hcontains : (Table.contains ⟨bound⟩ n : Bool) = false := by
    rw [Bool.eq_false_iff]
    intro hc
    exact h ((Table.contains_iff _ n).1 hc)
  have hassign : Scopes.assign ⟨[⟨⟨bound⟩, false⟩], s.sheet.scopes.global⟩ n v =
      ⟨[⟨⟨bound ++ [(n, v)]⟩, false⟩], s.sheet.scopes.global⟩ := by
    simp [Scopes.assign, Scopes.reassign?, hcontains, Table.insert, Table.put_of_notMem v h]
  show (Except.ok (), _) = _
  simp only [State.withFrame, State.withLocals, hassign]

/-! ### One step of the binding -/

section

variable (value : Expr → Render σ Value) (function : String) (count : Nat) {p : Parameter}
  (ps : List Parameter) {bound : List (Name × Value)} (s : State σ)

/-- A parameter is bound, and then the others. -/
theorem run_assign_bind (v : Value) (args : Arguments) (hfree : p.key ∉ bound.map (·.1)) :
    (do Eval.assign p.key v; Eval.bind value function count ps args).run (s.withFrame bound) =
      (Eval.bind value function count ps args).run (s.withFrame (bound ++ [(p.key, v)])) := by
  rw [run_bind, run_assign v s hfree]

theorem run_bind_rest (hp : p.rest = true) (args : Arguments) (hfree : p.key ∉ bound.map (·.1)) :
    (Eval.bind value function count (p :: ps) args).run (s.withFrame bound) =
      (Eval.bind value function count ps ⟨[], args.named⟩).run
        (s.withFrame (bound ++ [(p.key, .list args.positional .comma)])) := by
  rw [← run_assign_bind _ _ _ _ _ _ _ hfree, Eval.bind, if_pos hp]
  rfl

theorem run_bind_positional (hp : p.rest = false) (v : Value) (vs : List Value)
    (ks : List (Name × Value)) (hfree : p.key ∉ bound.map (·.1)) :
    (Eval.bind value function count (p :: ps) ⟨v :: vs, ks⟩).run (s.withFrame bound) =
      (Eval.bind value function count ps ⟨vs, ks⟩).run
        (s.withFrame (bound ++ [(p.key, v)])) := by
  rw [← run_assign_bind _ _ _ _ _ _ _ hfree, Eval.bind, if_neg (Bool.eq_false_iff.1 hp)]
  rfl

theorem run_bind_named (hp : p.rest = false) {v : Value} {ks ks' : List (Name × Value)}
    (htake : Eval.takeNamed p.key ks = some (v, ks')) (hfree : p.key ∉ bound.map (·.1)) :
    (Eval.bind value function count (p :: ps) ⟨[], ks⟩).run (s.withFrame bound) =
      (Eval.bind value function count ps ⟨[], ks'⟩).run
        (s.withFrame (bound ++ [(p.key, v)])) := by
  unfold Parameter.key at htake
  rw [← run_assign_bind _ _ _ _ _ _ _ hfree, Eval.bind, if_neg (Bool.eq_false_iff.1 hp)]
  simp only [htake]
  rfl

theorem bind_default (hp : p.rest = false) {ks : List (Name × Value)}
    (htake : Eval.takeNamed p.key ks = none) {e : Expr} (hdefault : p.default = some e) :
    Eval.bind value function count (p :: ps) ⟨[], ks⟩ = (do
      let v ← value e
      Eval.assign p.key v
      Eval.bind value function count ps ⟨[], ks⟩) := by
  unfold Parameter.key at htake
  rw [Eval.bind, if_neg (Bool.eq_false_iff.1 hp)]
  simp only [htake, hdefault]
  rfl

theorem bind_missing (hp : p.rest = false) {ks : List (Name × Value)}
    (htake : Eval.takeNamed p.key ks = none) (hdefault : p.default = none) :
    Eval.bind value function count (p :: ps) ⟨[], ks⟩ =
      throw (.call function (.missingArgument p.name)) := by
  unfold Parameter.key at htake
  rw [Eval.bind, if_neg (Bool.eq_false_iff.1 hp)]
  simp only [htake, hdefault]

end

/-! ### All parameters -/

/-- Evaluation leaves the blocks that are open as they are. -/
def KeepsLocals (value : Expr → Render σ Value) : Prop :=
  ∀ e s, ((value e).run s).2.sheet.scopes.locals = s.sheet.scopes.locals

theorem withFrame_of_run {value : Expr → Render σ Value} (hvalue : KeepsLocals value) {e : Expr}
    {s t : State σ} {bound : List (Name × Value)} {r : Except RenderError Value}
    (h : (value e).run (s.withFrame bound) = (r, t)) : t = t.withFrame bound := by
  have hlocals := hvalue e (s.withFrame bound)
  rw [h] at hlocals
  obtain ⟨⟨⟨locals, g⟩, functions, namespaces, path⟩, modules, host⟩ := t
  obtain rfl : locals = _ := hlocals
  rfl

/-- What a binding comes to: what the supplies of the parameters say if the arguments fit them, and
an error if they do not. -/
def Comes (value : Expr → Render σ Value) (bound : List (Name × Value)) (args : Arguments)
    (ps : List Parameter) (s : State σ) (outcome : Except RenderError Unit × State σ) : Prop :=
  (args.Fits ps → ∃ r s', Binds value bound (args.supplies ps) s r s' ∧
    outcome = (r.map fun _ => (), s')) ∧
  (¬ args.Fits ps → ∃ error s', outcome = (.error error, s'))

variable {value : Expr → Render σ Value} {bound : List (Name × Value)} {args args' : Arguments}
  {p : Parameter} {ps : List Parameter} {s t : State σ}
  {outcome : Except RenderError Unit × State σ}

theorem Comes.argument {v : Value} (hfits : args.Fits (p :: ps) ↔ args'.Fits ps)
    (hsupplies : args.supplies (p :: ps) = (p.key, .argument v) :: args'.supplies ps)
    (h : Comes value (bound ++ [(p.key, v)]) args' ps s outcome) :
    Comes value bound args (p :: ps) s outcome := by
  refine ⟨fun hf => ?_, fun hf => h.2 fun hf' => hf (hfits.2 hf')⟩
  obtain ⟨r, s', hbinds, hrun⟩ := h.1 (hfits.1 hf)
  exact ⟨r, s', hsupplies ▸ .argument hbinds, hrun⟩

theorem Comes.default {e : Expr} {v : Value} (hfits : args.Fits (p :: ps) ↔ args'.Fits ps)
    (hsupplies : args.supplies (p :: ps) = (p.key, .default e) :: args'.supplies ps)
    (hvalue : (value e).run (s.withFrame bound) = (.ok v, t))
    (h : Comes value (bound ++ [(p.key, v)]) args' ps t outcome) :
    Comes value bound args (p :: ps) s outcome := by
  refine ⟨fun hf => ?_, fun hf => h.2 fun hf' => hf (hfits.2 hf')⟩
  obtain ⟨r, s', hbinds, hrun⟩ := h.1 (hfits.1 hf)
  exact ⟨r, s', hsupplies ▸ .default hvalue hbinds, hrun⟩

/-- Arguments that are left over are an error. -/
theorem comes_nil (value : Expr → Render σ Value) (function : String) (count : Nat)
    (args : Arguments) (bound : List (Name × Value)) (s : State σ) :
    Comes value bound args [] s
      ((Eval.bind value function count [] args).run (s.withFrame bound)) := by
  obtain ⟨vs, ks⟩ := args
  refine ⟨fun hf => ?_, fun hf => ?_⟩
  · obtain ⟨rfl, rfl⟩ := (Arguments.fits_nil_iff _).1 hf
    exact ⟨_, _, .done, rfl⟩
  · rw [Arguments.fits_nil_iff] at hf
    cases vs with
    | cons v vs => exact ⟨_, _, rfl⟩
    | nil =>
      cases ks with
      | cons k ks => exact ⟨_, _, rfl⟩
      | nil => exact absurd ⟨rfl, rfl⟩ hf

/-- **Binding arguments** comes to what their supplies say, whatever is bound before. -/
theorem comes_bind (hvalue : KeepsLocals value) (function : String) (count : Nat)
    (hkeys : (ps.map Parameter.key).Nodup) (hrest : ∀ p ∈ ps.dropLast, p.rest = false)
    (args : Arguments) (bound : List (Name × Value))
    (hbound : ∀ p ∈ ps, p.key ∉ bound.map (·.1)) (s : State σ) :
    Comes value bound args ps s
      ((Eval.bind value function count ps args).run (s.withFrame bound)) := by
  -- the frame holds the parameters before these, so the name of each is new to it
  induction ps generalizing args bound s with
  | nil => exact comes_nil value function count args bound s
  | cons p ps ih =>
    rw [List.map_cons, List.nodup_cons] at hkeys
    have hkey : ∀ q ∈ ps, q.key ≠ p.key := fun q hq heq =>
      hkeys.1 (heq ▸ List.mem_map_of_mem hq)
    have hfree : p.key ∉ bound.map (·.1) := hbound p List.mem_cons_self
    have hnext (v : Value) : ∀ q ∈ ps, q.key ∉ (bound ++ [(p.key, v)]).map (·.1) := by
      intro q hq
      simp only [List.map_append, List.map_cons, List.map_nil, List.mem_append,
        List.mem_singleton, not_or]
      exact ⟨hbound q (List.mem_cons_of_mem _ hq), hkey q hq⟩
    have hlast : ∀ q ∈ ps.dropLast, q.rest = false := fun q hq => by
      cases ps with
      | nil => cases hq
      | cons q' ps => exact hrest q (List.mem_cons_of_mem _ hq)
    cases hp : p.rest with
    | true =>
      -- it is the last one, and takes all positional arguments that are left
      obtain rfl : ps = [] := by
        cases ps with
        | nil => rfl
        | cons q ps =>
          rw [hrest p List.mem_cons_self] at hp
          cases hp
      rw [run_bind_rest value function count [] s hp args hfree]
      exact .argument (Arguments.fits_rest_iff hp args) (Arguments.supplies_rest hp args)
        (comes_nil value function count _ _ s)
    | false =>
      obtain ⟨vs, ks⟩ := args
      cases vs with
      | cons v vs =>
        rw [run_bind_positional value function count ps s hp v vs ks hfree]
        exact .argument (Arguments.fits_positional_iff hp) (Arguments.supplies_positional hp)
          (ih hkeys.2 hlast _ _ (hnext v) s)
      | nil =>
        rcases Arguments.takeNamed_cases p.key ks with ⟨v, a, b, rfl, ha, htake⟩ | ⟨hnot, htake⟩
        · rw [run_bind_named value function count ps s hp htake hfree]
          exact .argument (Arguments.fits_named_iff hp hkey a b)
            (Arguments.supplies_named hp hkey ha) (ih hkeys.2 hlast _ _ (hnext v) s)
        · cases hdefault : p.default with
          | none =>
            rw [bind_missing value function count ps hp htake hdefault]
            exact ⟨fun hf => absurd hf (Arguments.not_fits_of_missing hp hnot hdefault),
              fun _ => ⟨_, _, rfl⟩⟩
          | some e =>
            have hfits : Arguments.Fits ⟨[], ks⟩ (p :: ps) ↔ Arguments.Fits ⟨[], ks⟩ ps :=
              Arguments.fits_default_iff hnot (by rw [hdefault]; rfl)
            have hsupplies : Arguments.supplies ⟨[], ks⟩ (p :: ps) =
                (p.key, .default e) :: Arguments.supplies ⟨[], ks⟩ ps :=
              Arguments.supplies_default hp hnot hdefault
            rw [bind_default value function count ps hp htake hdefault, run_bind]
            rcases hrun : (value e).run (s.withFrame bound) with ⟨error | v, t⟩
            · exact ⟨fun _ => ⟨_, _, by rw [hsupplies]; exact .fails hrun, rfl⟩,
                fun _ => ⟨_, _, rfl⟩⟩
            · -- the default leaves the frame as it is
              refine .default hfits hsupplies hrun ?_
              rw [withFrame_of_run hvalue hrun]
              change Comes value _ _ ps _
                ((do Eval.assign p.key v; Eval.bind value function count ps ⟨[], ks⟩).run _)
              rw [run_assign_bind value function count ps t v ⟨[], ks⟩ hfree]
              exact ih hkeys.2 hlast _ _ (hnext v) (t.withFrame bound)

/-- Expressions leave the blocks that are open as they are, whatever functions they call. -/
theorem keepsLocals_eval [Log.Sink σ] (h : Host σ) (limits : Limits) (n : Nat) :
    KeepsLocals (·.eval h (callAt h limits n)) := by
  intro e s
  obtain ⟨ds, -, hcalled, -⟩ :=
    Ledger.eval h (Deed.calling.callAt h limits n) e s []
  exact hcalled.locals

/-- **Binding loses and duplicates nothing.** Arguments that fit the parameters of a function are
bound to them in its frame, unless a default fails: each parameter to what supplies it, the
defaults evaluated from left to right where the parameters before them are bound, and nothing else
is bound in the frame. Arguments that do not fit are an error. -/
theorem bind_outcome [Log.Sink σ] (h : Host σ) (limits : Limits) (n : Nat) (function : String)
    (count : Nat) {ps : List Parameter} (hkeys : (ps.map Parameter.key).Nodup)
    (hrest : ∀ p ∈ ps.dropLast, p.rest = false) (args : Arguments) (s : State σ) :
    let value : Expr → Render σ Value := (·.eval h (callAt h limits n))
    let outcome := (Eval.bind value function count ps args).run (s.withFrame [])
    (args.Fits ps → ∃ r s', Binds value [] (args.supplies ps) s r s' ∧
      outcome = (r.map fun _ => (), s') ∧
      (∀ bound, r = .ok bound → s'.sheet.scopes.locals = [⟨⟨bound⟩, false⟩] ∧
        bound.length = ps.length ∧ ∀ i p, ps[i]? = some p →
          ∃ v, bound[i]? = some (p.key, v) ∧ (args.supply i p).Gives value (bound.take i) v) ∧
      ∀ error, r = .error error → ∃ p ∈ ps, ∃ e before t, p.default = some e ∧
        (value e).run (State.withFrame t before) = (.error error, s')) ∧
    (¬ args.Fits ps → ∃ error s', outcome = (.error error, s')) := by
  intro value outcome
  obtain ⟨hfits, hfail⟩ := comes_bind (keepsLocals_eval h limits n) function count hkeys hrest args
    [] (fun _ _ => nofun) s
  refine ⟨fun hf => ?_, hfail⟩
  obtain ⟨r, s', hbinds, hrun⟩ := hfits hf
  refine ⟨r, s', hbinds, hrun, ?_, ?_⟩
  · rintro bound rfl
    obtain ⟨hlocals, more, rfl, hlength, hmore⟩ := hbinds.frame
    refine ⟨hlocals, hlength.trans List.length_mapIdx, fun i p hp => hmore i _ _ ?_⟩
    rw [Arguments.supplies, List.getElem?_mapIdx, hp]
    rfl
  · rintro error rfl
    obtain ⟨m, e, before, t, hmem, hrun⟩ := hbinds.error_of_default
    obtain ⟨p, hp, hdefault⟩ := Arguments.default_of_mem_supplies hmem
    exact ⟨p, hp, e, before, t, hdefault, hrun⟩

/-- A keyword in the other spelling, a default that sees a parameter, and nothing left over. -/
theorem bind_outcome_sample :
    let _ : Log.Sink Unit := ⟨fun _ _ => ()⟩
    let host : Host Unit := ⟨fun _ _ => pure (.error ""), .empty, fun _ => .error .notFound⟩
    let value : Expr → Render Unit Value := (·.eval host (callAt host .standard 0))
    let s : State Unit := ⟨.start .empty none, .empty, ()⟩
    let ps : List Parameter := [⟨"a", none, false⟩, ⟨"b", some (.variable "a"), false⟩,
      ⟨"c_d", none, false⟩, ⟨"r", none, true⟩]
    let args : Arguments := ⟨[.string "x" false], [(.ofString "c-d", .string "y" false)]⟩
    (ps.map Parameter.key).Nodup ∧ (∀ p ∈ ps.dropLast, p.rest = false) ∧ args.Fits ps ∧
      ∃ bound s', Binds value [] (args.supplies ps) s (.ok bound) s' ∧
        bound.map (fun b => (b.1.text, b.2.plainText)) =
          [("a", "x"), ("b", "x"), ("c-d", "y"), ("r", "")] := by
  intro _ host value s ps args
  have hkeys : (ps.map Parameter.key).Nodup := by decide +kernel
  have hrest : ∀ p ∈ ps.dropLast, p.rest = false := by decide +kernel
  obtain ⟨hfits, hfail⟩ := bind_outcome host .standard 0 "f" 4 hkeys hrest args s
  let outcome := (Eval.bind value "f" 4 ps args).run (s.withFrame [])
  have hok : outcome.1 = .ok () := by rfl
  have hlocals : outcome.2.sheet.scopes.locals.map (fun scope => scope.bindings.entries.map
      fun b => (b.1.text, b.2.plainText)) =
        [[("a", "x"), ("b", "x"), ("c-d", "y"), ("r", "")]] := by decide +kernel
  have hfit : args.Fits ps := Classical.byContradiction fun hf => by
    obtain ⟨error, s', h⟩ := hfail hf
    cases (congrArg Prod.fst h).symm.trans hok
  obtain ⟨error | bound, s', hbinds, h, hframe, -⟩ := hfits hfit
  · cases (congrArg Prod.fst h).symm.trans hok
  · obtain ⟨hframe, -⟩ := hframe bound rfl
    change outcome = (.ok (), s') at h
    rw [h, hframe] at hlocals
    exact ⟨hkeys, hrest, hfit, bound, s', hbinds, List.head_eq_of_cons_eq hlocals⟩

end Render
end Stylesheet
