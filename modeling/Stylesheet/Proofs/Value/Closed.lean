import Stylesheet.Value.Arithmetic
import Stylesheet.Value.Pairs

/-!
# Families of values

A family of values that is closed under what expressions make of values: scalars, lists, maps to
which pairs are added, merged and removed, and the parts of lists and maps. Operators and the
elements of a value do not lead out of such a family. An operator may refuse its operands, but not
for a number that cannot be read, since it reads none.

* `Outcome`: what is known of a result, be it a value or an error.
* `Value.Closed`: what a family is closed under.
* `Value.Closed.outcome_apply`: operators.
* `Value.Proper`: values in which no map has two equal keys.
* `Value.closed_proper`: they are such a family.
-/

namespace Stylesheet

/-! ### Results -/

/-- What is known of a result: a property of the value, or one of the error. -/
def Outcome {ε α : Type} (E : ε → Prop) (P : α → Prop) : Except ε α → Prop
  | .ok a => P a
  | .error e => E e

namespace Outcome

variable {ε ε' α β : Type} {E : ε → Prop} {E' : ε' → Prop} {P : α → Prop} {Q : β → Prop}

theorem bind {r : Except ε α} {f : α → Except ε β} (h : Outcome E P r)
    (hf : ∀ a, P a → Outcome E Q (f a)) : Outcome E Q (r >>= f) := by
  cases r with
  | ok a => exact hf a h
  | error e => exact h

theorem mono {P' : α → Prop} {r : Except ε α} (h : Outcome E P r) (hP : ∀ a, P a → P' a) :
    Outcome E P' r := by
  cases r with
  | ok a => exact hP a h
  | error e => exact h

theorem map {f : α → β} {r : Except ε α} (h : Outcome E P r) (hf : ∀ a, P a → Q (f a)) :
    Outcome E Q (r.map f) := by
  cases r with
  | ok a => exact hf a h
  | error e => exact h

theorem mapError {g : ε → ε'} {r : Except ε α} (h : Outcome E P r) (hg : ∀ e, E e → E' (g e)) :
    Outcome E' P (r.mapError g) := by
  cases r with
  | ok a => exact h
  | error e => exact hg e h

end Outcome

/-- Whether a fault is that a number cannot be read. -/
def Fault.isUnread : Fault → Bool
  | .invalidNumber _ => true
  | _ => false

/-! ### Maps without equal keys -/

namespace Pairs

theorem hasKey_eq_false {ps : List (Value × Value)} {k : Value} :
    hasKey ps k = false ↔ ∀ p ∈ ps, p.1.same k = false := by
  rw [hasKey, List.any_eq_false]
  simp only [Bool.not_eq_true]

/-- A pair behind setting a key is an old one, or a new one under the key or under an old key. -/
theorem mem_put {k v : Value} {ps : List (Value × Value)} {p : Value × Value}
    (h : p ∈ put k v ps) :
    p ∈ ps ∨ (p.1 = k ∧ p.2 = v) ∨ (∃ q ∈ ps, p.1 = q.1) ∧ p.2 = v := by
  induction ps with
  | nil =>
    rw [put, List.mem_singleton] at h
    rw [h]
    exact .inr (.inl ⟨rfl, rfl⟩)
  | cons q ps ih =>
    unfold put at h
    split at h
    · rcases List.mem_cons.1 h with rfl | h
      · exact .inr (.inr ⟨⟨q, List.mem_cons_self, rfl⟩, rfl⟩)
      · exact .inl (List.mem_cons_of_mem _ h)
    · rcases List.mem_cons.1 h with rfl | h
      · exact .inl List.mem_cons_self
      · rcases ih h with h | hnew | ⟨⟨r, hr, hk⟩, hv⟩
        · exact .inl (List.mem_cons_of_mem _ h)
        · exact .inr (.inl hnew)
        · exact .inr (.inr ⟨⟨r, List.mem_cons_of_mem _ hr, hk⟩, hv⟩)

theorem Distinct.append {ps : List (Value × Value)} {k v : Value} (h : Distinct ps)
    (hk : hasKey ps k = false) : Distinct (ps ++ [(k, v)]) := by
  refine List.pairwise_append.2 ⟨h, List.pairwise_singleton _ _, fun p hp q hq => ?_⟩
  rw [List.mem_singleton] at hq
  rw [hq]
  exact hasKey_eq_false.1 hk p hp

/-- **Setting a key** of a map makes no two keys equal. -/
theorem Distinct.put {ps : List (Value × Value)} (h : Distinct ps) (k v : Value) :
    Distinct (put k v ps) := by
  induction ps with
  | nil => exact List.pairwise_singleton _ _
  | cons p ps ih =>
    obtain ⟨hp, hps⟩ := List.pairwise_cons.1 h
    unfold Pairs.put
    split
    · exact List.pairwise_cons.2 ⟨hp, hps⟩
    · next hpk =>
      refine List.pairwise_cons.2 ⟨fun q hq => ?_, ih hps⟩
      -- a pair of the rest has an old key, or the new one, to which the first key is not equal
      rcases mem_put hq with hq | ⟨hk, -⟩ | ⟨⟨r, hr, hk⟩, -⟩
      · exact hp q hq
      · rw [hk]
        exact Bool.eq_false_iff.2 hpk
      · rw [hk]
        exact hp r hr

theorem Distinct.merge {ps : List (Value × Value)} (h : Distinct ps) (qs : List (Value × Value)) :
    Distinct (merge ps qs) := by
  unfold Pairs.merge
  induction qs generalizing ps with
  | nil => exact h
  | cons q qs ih => exact ih (h.put q.1 q.2)

theorem Distinct.remove {ps : List (Value × Value)} (h : Distinct ps) (keys : List Value) :
    Distinct (remove ps keys) := List.Pairwise.filter _ h

/-- Every key and value of a merged map comes from one of the two. -/
theorem all_merge {P : Value → Prop} {ps qs : List (Value × Value)}
    (hps : ∀ p ∈ ps, P p.1 ∧ P p.2) (hqs : ∀ q ∈ qs, P q.1 ∧ P q.2) :
    ∀ p ∈ merge ps qs, P p.1 ∧ P p.2 := by
  unfold merge
  induction qs generalizing ps with
  | nil => exact hps
  | cons q qs ih =>
    rw [List.forall_mem_cons] at hqs
    refine ih (fun p hp => ?_) hqs.2
    rcases mem_put hp with hp | ⟨hk, hv⟩ | ⟨⟨r, hr, hk⟩, hv⟩
    · exact hps p hp
    · rw [hk, hv]
      exact hqs.1
    · rw [hk, hv]
      exact ⟨(hps r hr).1, hqs.1.2⟩

end Pairs

namespace Value

/-! ### Families -/

/-- Whether a value has no other values in it. -/
def isScalar : Value → Bool
  | list _ _ | map _ => false
  | _ => true

/-- **A closed family** of values: what is made of its values belongs to it, and so do their
parts. -/
structure Closed (V : Value → Prop) : Prop where
  scalar {v : Value} : v.isScalar = true → V v
  list {vs : List Value} (separator : Separator) : (∀ v ∈ vs, V v) → V (list vs separator)
  item {vs : List Value} {separator : Separator} : V (Value.list vs separator) → ∀ v ∈ vs, V v
  noPairs : V (map [])
  addPair {ps : List (Value × Value)} {k v : Value} : V (map ps) → V k → V v →
    Pairs.hasKey ps k = false → V (map (ps ++ [(k, v)]))
  pair {ps : List (Value × Value)} : V (map ps) → ∀ p ∈ ps, V p.1 ∧ V p.2
  merge {ps qs : List (Value × Value)} : V (map ps) → V (map qs) → V (map (Pairs.merge ps qs))
  remove {ps : List (Value × Value)} (keys : List Value) : V (map ps) →
    V (map (Pairs.remove ps keys))

/-- All values are a closed family. -/
theorem closed_true : Closed fun _ => True := by
  constructor <;> intros <;> trivial

namespace Closed

variable {V : Value → Prop} (hV : Closed V)
include hV

omit hV in
/-- A family that is closed is so under a condition. -/
theorem under (hV : Closed V) (H : Prop) : Closed fun v => H → V v where
  scalar hv _ := hV.scalar hv
  list separator hvs h := hV.list separator fun v hv => hvs v hv h
  item hl v hv h := hV.item (hl h) v hv
  noPairs _ := hV.noPairs
  addPair hps hk hv hfree h := hV.addPair (hps h) (hk h) (hv h) hfree
  pair hps p hp := ⟨fun h => (hV.pair (hps h) p hp).1, fun h => (hV.pair (hps h) p hp).2⟩
  merge hps hqs h := hV.merge (hps h) (hqs h)
  remove keys hps h := hV.remove keys (hps h)

theorem elements {v : Value} (hv : V v) : ∀ w ∈ v.elements, V w := by
  cases v with
  | list items separator => exact hV.item hv
  | map ps =>
    intro w hw
    obtain ⟨p, hp, rfl⟩ := List.mem_map.1 hw
    refine hV.list .space fun x hx => ?_
    simp only [List.mem_cons, List.not_mem_nil, or_false] at hx
    rcases hx with rfl | rfl
    · exact (hV.pair hv p hp).1
    · exact (hV.pair hv p hp).2
  | _ =>
    intro w hw
    rw [Value.elements, List.mem_singleton] at hw
    · rw [hw]
      exact hv
    all_goals exact nofun

end Closed

/-! ### Operators -/

/-- A scalar, or a fault that is none of a number. -/
abbrev Computes (r : Except Fault Value) : Prop :=
  Outcome (·.isUnread = false) (·.isScalar = true) r

theorem outcome_commonUnit (u v : Option String) :
    Outcome (·.isUnread = false) (fun _ => True) (commonUnit u v) := by
  unfold commonUnit
  split
  · split <;> trivial
  · trivial
  · trivial

theorem computes_onNumbers (f : Float → Float → Float) (x : Float) (u : Option String) (y : Float)
    (v : Option String) : Computes (onNumbers f x u y v) :=
  (outcome_commonUnit u v).map fun _ _ => rfl

theorem computes_onColor (op : Operator) (f : Float → Float → Float) (c : Color) (r : Value) :
    Computes (onColor op f c r) := by
  unfold onColor
  split
  · split <;> rfl
  · rfl
  · rfl

theorem computes_onNumberColor (op : Operator) (f : Float → Float → Float) (l : Value)
    (d : Color) : Computes (onNumberColor op f l d) := by
  unfold onNumberColor
  split <;> rfl

theorem computes_add (l r : Value) : Computes (l.add r) := by
  unfold add
  split
  · exact computes_onNumbers _ _ _ _ _
  · exact computes_onColor _ _ _ _
  · exact computes_onColor _ _ _ _
  · exact computes_onNumberColor _ _ _ _
  all_goals rfl

theorem computes_sub (l r : Value) : Computes (l.sub r) := by
  unfold sub
  split
  · exact computes_onNumbers _ _ _ _ _
  · exact computes_onColor _ _ _ _
  · exact computes_onColor _ _ _ _
  all_goals rfl

theorem computes_mul (l r : Value) : Computes (l.mul r) := by
  unfold mul
  split
  · exact computes_onColor _ _ _ _
  · exact computes_onNumberColor _ _ _ _
  all_goals rfl

theorem computes_div (l r : Value) : Computes (l.div r) := by
  unfold div
  split
  · exact computes_onColor _ _ _ _
  · exact computes_onColor _ _ _ _
  · rfl
  · split <;> rfl
  · rfl

theorem computes_rem (l r : Value) : Computes (l.rem r) := by
  unfold rem
  split
  · exact computes_onNumbers _ _ _ _ _
  · rfl

theorem outcome_compare (op : Operator) (holds : Float → Float → Bool) (l r : Value) :
    Outcome (·.isUnread = false) (fun _ => True) (compare op holds l r) := by
  unfold compare
  split
  · exact (outcome_commonUnit _ _).map fun _ _ => trivial
  · rfl

/-- **An operator** makes one of its operands, a scalar or a fault that is none of a number. -/
theorem Closed.outcome_apply {V : Value → Prop} (hV : Closed V) (op : Operator) {l r : Value}
    (hl : V l) (hr : V r) : Outcome (·.isUnread = false) V (apply op l r) := by
  have scalar {x : Except Fault Value} (hx : Computes x) : Outcome (·.isUnread = false) V x :=
    hx.mono fun _ hw => hV.scalar hw
  cases op with
  | or =>
    change V (if l.isTruthy then l else r)
    split
    · exact hl
    · exact hr
  | and =>
    change V (if l.isTruthy then r else l)
    split
    · exact hr
    · exact hl
  | equal | unequal => exact hV.scalar rfl
  | less | lessEqual | greater | greaterEqual =>
    exact scalar ((outcome_compare _ _ l r).map fun _ _ => rfl)
  | plus => exact scalar (computes_add l r)
  | minus => exact scalar (computes_sub l r)
  | times => exact scalar (computes_mul l r)
  | slash => exact scalar (computes_div l r)
  | percent => exact scalar (computes_rem l r)

/-! ### Values whose maps have no equal keys -/

/-- **A value is proper** if no map in it, at whatever depth, has a key that is equal to an earlier
one. -/
inductive Proper : Value → Prop
  | scalar {v : Value} : v.isScalar = true → Proper v
  | list {vs : List Value} {separator : Separator} : (∀ v ∈ vs, Proper v) →
      Proper (list vs separator)
  | map {ps : List (Value × Value)} : Pairs.Distinct ps → (∀ p ∈ ps, Proper p.1) →
      (∀ p ∈ ps, Proper p.2) → Proper (map ps)

namespace Proper

theorem distinct {ps : List (Value × Value)} (h : Proper (Value.map ps)) : Pairs.Distinct ps := by
  cases h with
  | scalar hv => cases hv
  | map hd _ _ => exact hd

theorem pair {ps : List (Value × Value)} (h : Proper (Value.map ps)) :
    ∀ p ∈ ps, Proper p.1 ∧ Proper p.2 := by
  cases h with
  | scalar hv => cases hv
  | map _ hk hv => exact fun p hp => ⟨hk p hp, hv p hp⟩

theorem item {vs : List Value} {separator : Separator} (h : Proper (Value.list vs separator)) :
    ∀ v ∈ vs, Proper v := by
  cases h with
  | scalar hv => cases hv
  | list hvs => exact hvs

theorem ofPairs {ps : List (Value × Value)} (hd : Pairs.Distinct ps)
    (h : ∀ p ∈ ps, Proper p.1 ∧ Proper p.2) : Proper (Value.map ps) :=
  .map hd (fun p hp => (h p hp).1) fun p hp => (h p hp).2

end Proper

/-- **Proper values** are a closed family. -/
theorem closed_proper : Closed Proper where
  scalar := .scalar
  list _ h := .list h
  item h := h.item
  noPairs := .map .nil nofun nofun
  addPair {ps k v} hps hk hv hfree := by
    refine .ofPairs (hps.distinct.append hfree) fun p hp => ?_
    rcases List.mem_append.1 hp with hp | hp
    · exact hps.pair p hp
    · rw [List.mem_singleton] at hp
      rw [hp]
      exact ⟨hk, hv⟩
  pair h := h.pair
  merge {ps qs} hps hqs := .ofPairs (hps.distinct.merge qs) (Pairs.all_merge hps.pair hqs.pair)
  remove keys hps :=
    .ofPairs (hps.distinct.remove keys) fun p hp => hps.pair p (List.mem_filter.1 hp).1

end Value
end Stylesheet
