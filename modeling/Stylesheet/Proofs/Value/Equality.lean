import Mathlib.Data.List.Forall2
import Mathlib.Data.List.Perm.Basic
import Stylesheet.Value.Equality
import Stylesheet.Value.Pairs

/-!
# Equality of values is an equivalence

Numbers are equal up to a tolerance, which is no equivalence; colors are made of numbers. On all
other values, as long as no map in them has two equal keys, equality is one. The map is the hard
case: equality of maps looks for the pairs of the first in the second only, and counts. Distinct
keys make the search one to one, so that equal lengths leave no pair of the second without one of
the first.

* `Value.Exact`: values without numbers and colors, whose maps have no equal keys.
* `Value.same_equivalence`: equality of exact values, and of maps of them.
-/

namespace Stylesheet

/-- **Matching one to one.** If each item matches a target and no target is matched by two items,
there are no more items than targets; if there are no fewer, every target is matched. -/
theorem matches_of_pairwise {α β : Type} {R : α → β → Prop} {xs : List α} {ys : List β}
    (hsome : ∀ x ∈ xs, ∃ y ∈ ys, R x y)
    (hone : xs.Pairwise fun x x' => ∀ y ∈ ys, R x y → ¬ R x' y) :
    xs.length ≤ ys.length ∧ (ys.length ≤ xs.length → ∀ y ∈ ys, ∃ x ∈ xs, R x y) := by
  induction xs generalizing ys with
  | nil => exact ⟨Nat.zero_le _, fun h y hy => absurd (List.length_pos_of_mem hy) (Nat.not_lt.2 h)⟩
  | cons x xs ih =>
    rw [List.forall_mem_cons] at hsome
    obtain ⟨⟨y₀, hy₀, hx⟩, hsome⟩ := hsome
    obtain ⟨hx', hone⟩ := List.pairwise_cons.1 hone
    obtain ⟨front, back, rfl⟩ := List.append_of_mem hy₀
    have hperm : List.Perm (front ++ y₀ :: back) (y₀ :: (front ++ back)) := List.perm_middle
    -- the items behind match the targets without the one that the first item matches
    have hrest : ∀ x' ∈ xs, ∃ y ∈ front ++ back, R x' y := by
      intro x' hmem
      obtain ⟨y, hy, hxy⟩ := hsome x' hmem
      rcases List.mem_cons.1 (hperm.mem_iff.1 hy) with rfl | hy
      · exact absurd hxy (hx' x' hmem y hy₀ hx)
      · exact ⟨y, hy, hxy⟩
    obtain ⟨hle, hall⟩ := ih hrest
      (hone.imp fun h y hy => h y (hperm.mem_iff.2 (List.mem_cons_of_mem _ hy)))
    rw [hperm.length_eq, List.length_cons, List.length_cons]
    refine ⟨Nat.succ_le_succ hle, fun h y hy => ?_⟩
    rcases List.mem_cons.1 (hperm.mem_iff.1 hy) with rfl | hy
    · exact ⟨x, List.mem_cons_self, hx⟩
    · obtain ⟨x', hmem, hxy⟩ := hall (Nat.le_of_succ_le_succ h) y hy
      exact ⟨x', List.mem_cons_of_mem _ hmem, hxy⟩

namespace Value

/-! ### What is equal to a value of each kind -/

section

attribute [local simp] same sameAll pairsAmong

theorem same_bool_iff {b : Bool} {w : Value} : (bool b).same w = true ↔ bool b = w := by
  cases w <;> simp

theorem same_null_iff {w : Value} : null.same w = true ↔ null = w := by
  cases w <;> simp

theorem same_function_iff {f : String} {w : Value} :
    (function f).same w = true ↔ function f = w := by
  cases w <;> simp

theorem same_string_iff {t : String} {quoted : Bool} {w : Value} :
    (string t quoted).same w = true ↔ ∃ q, string t q = w := by
  cases w <;> simp

theorem sameAll_iff {xs ys : List Value} :
    sameAll xs ys = true ↔ List.Forall₂ (fun x y => x.same y = true) xs ys := by
  induction xs generalizing ys with
  | nil => cases ys <;> simp
  | cons x xs ih => cases ys <;> simp [ih]

theorem same_list_iff {xs : List Value} {s : Separator} {w : Value} :
    (list xs s).same w = true ↔
      ∃ ys, list ys s = w ∧ List.Forall₂ (fun x y => x.same y = true) xs ys := by
  cases w <;> simp [sameAll_iff, and_assoc]

/-- A pair is found in a map: one with an equal key and an equal value. -/
def PairIn (p : Value × Value) (qs : List (Value × Value)) : Prop :=
  ∃ q ∈ qs, p.1.same q.1 = true ∧ p.2.same q.2 = true

theorem pairsAmong_iff {ps qs : List (Value × Value)} :
    pairsAmong ps qs = true ↔ ∀ p ∈ ps, PairIn p qs := by
  induction ps with
  | nil => simp
  | cons p ps ih => simp [PairIn, ih]

theorem same_map_iff {ps : List (Value × Value)} {w : Value} :
    (map ps).same w = true ↔
      ∃ qs, map qs = w ∧ ps.length = qs.length ∧ ∀ p ∈ ps, PairIn p qs := by
  cases w <;> simp [pairsAmong_iff]

end

/-! ### Exact values -/

/-- **A value is exact** if there are no numbers and no colors in it, at whatever depth, and no map
with two equal keys. -/
inductive Exact : Value → Prop
  | bool (b : Bool) : Exact (bool b)
  | null : Exact null
  | string (text : String) (quoted : Bool) : Exact (string text quoted)
  | function (name : String) : Exact (function name)
  | list {vs : List Value} (separator : Separator) : (∀ v ∈ vs, Exact v) →
      Exact (list vs separator)
  | map {ps : List (Value × Value)} : Pairs.Distinct ps → (∀ p ∈ ps, Exact p.1) →
      (∀ p ∈ ps, Exact p.2) → Exact (map ps)

namespace Exact

theorem item {vs : List Value} {separator : Separator} (h : Exact (Value.list vs separator)) :
    ∀ v ∈ vs, Exact v := by
  cases h with
  | list _ hvs => exact hvs

theorem distinct {ps : List (Value × Value)} (h : Exact (Value.map ps)) : Pairs.Distinct ps := by
  cases h with
  | map hd _ _ => exact hd

theorem key {ps : List (Value × Value)} (h : Exact (Value.map ps)) : ∀ p ∈ ps, Exact p.1 := by
  cases h with
  | map _ hk _ => exact hk

theorem value {ps : List (Value × Value)} (h : Exact (Value.map ps)) : ∀ p ∈ ps, Exact p.2 := by
  cases h with
  | map _ _ hv => exact hv

end Exact

/-- Equality behaves as it should wherever it starts from a value. -/
structure Equates (u : Value) : Prop where
  refl : u.same u = true
  symm {v : Value} : Exact v → u.same v = true → v.same u = true
  trans {v w : Value} : Exact v → Exact w → u.same v = true → v.same w = true → u.same w = true

/-- What is equal to nothing but itself and is equal to itself. -/
theorem equates_of_eq {u : Value} (h : ∀ w, u.same w = true ↔ u = w) : Equates u where
  refl := (h u).2 rfl
  symm _ huv := by
    obtain rfl := (h _).1 huv
    exact huv
  trans _ _ huv hvw := by
    obtain rfl := (h _).1 huv
    exact hvw

theorem equates_string (t : String) (quoted : Bool) : Equates (string t quoted) where
  refl := same_string_iff.2 ⟨quoted, rfl⟩
  symm _ huv := by
    obtain ⟨q, rfl⟩ := same_string_iff.1 huv
    exact same_string_iff.2 ⟨quoted, rfl⟩
  trans _ _ huv hvw := by
    obtain ⟨q, rfl⟩ := same_string_iff.1 huv
    obtain ⟨r, rfl⟩ := same_string_iff.1 hvw
    exact same_string_iff.2 ⟨r, rfl⟩

/-! ### Lists -/

section Lists

variable {xs ys zs : List Value}

theorem forall₂_symm (hx : ∀ x ∈ xs, Equates x) (hy : ∀ y ∈ ys, Exact y)
    (h : List.Forall₂ (fun x y => x.same y = true) xs ys) :
    List.Forall₂ (fun y x => y.same x = true) ys xs := by
  induction h with
  | nil => exact .nil
  | cons hxy _ ih =>
    rw [List.forall_mem_cons] at hx hy
    exact .cons (hx.1.symm hy.1 hxy) (ih hx.2 hy.2)

theorem forall₂_trans (hx : ∀ x ∈ xs, Equates x) (hy : ∀ y ∈ ys, Exact y) (hz : ∀ z ∈ zs, Exact z)
    (h : List.Forall₂ (fun x y => x.same y = true) xs ys)
    (h' : List.Forall₂ (fun y z => y.same z = true) ys zs) :
    List.Forall₂ (fun x z => x.same z = true) xs zs := by
  induction h generalizing zs with
  | nil => exact h'
  | cons hxy _ ih =>
    cases h' with
    | cons hyz hrest =>
      rw [List.forall_mem_cons] at hx hy hz
      exact .cons (hx.1.trans hy.1 hz.1 hxy hyz) (ih hx.2 hy.2 hz.2 hrest)

theorem equates_list (s : Separator) (hx : ∀ x ∈ xs, Equates x) : Equates (list xs s) where
  refl := same_list_iff.2 ⟨xs, rfl, List.forall₂_same.2 fun x h => (hx x h).refl⟩
  symm hv huv := by
    obtain ⟨ys, rfl, h⟩ := same_list_iff.1 huv
    exact same_list_iff.2 ⟨xs, rfl, forall₂_symm hx hv.item h⟩
  trans hv hw huv hvw := by
    obtain ⟨ys, rfl, h⟩ := same_list_iff.1 huv
    obtain ⟨zs, rfl, h'⟩ := same_list_iff.1 hvw
    exact same_list_iff.2 ⟨zs, rfl, forall₂_trans hx hv.item hw.item h h'⟩

end Lists

/-! ### Maps -/

section Maps

variable {ps qs : List (Value × Value)}

/-- **A key is found once.** No pair has the key of two pairs with different keys. -/
theorem distinct_matches (hd : Pairs.Distinct ps) (hk : ∀ p ∈ ps, Equates p.1)
    (hps : ∀ p ∈ ps, Exact p.1) (hqs : ∀ q ∈ qs, Exact q.1) :
    ps.Pairwise fun p p' => ∀ q ∈ qs, p.1.same q.1 = true ∧ p.2.same q.2 = true →
      ¬ (p'.1.same q.1 = true ∧ p'.2.same q.2 = true) := by
  refine hd.imp_of_mem fun {p p'} hp hp' hpp' q hq hpq hpq' => ?_
  -- both keys are equal to that of `q`, so the first is equal to the second
  have hback : q.1.same p'.1 = true := (hk p' hp').symm (hqs q hq) hpq'.1
  have : p.1.same p'.1 = true := (hk p hp).trans (hqs q hq) (hps p' hp') hpq.1 hback
  rw [hpp'] at this
  cases this

/-- All pairs of a map that are found in another leave none of it out if it has no more. -/
theorem pairIn_symm (hd : Pairs.Distinct ps) (hk : ∀ p ∈ ps, Equates p.1)
    (hv : ∀ p ∈ ps, Equates p.2) (hps : ∀ p ∈ ps, Exact p.1) (hqs : Exact (map qs))
    (h : ∀ p ∈ ps, PairIn p qs) (hle : qs.length ≤ ps.length) : ∀ q ∈ qs, PairIn q ps := by
  intro q hq
  obtain ⟨p, hp, hpk, hpv⟩ :=
    (matches_of_pairwise h (distinct_matches hd hk hps hqs.key)).2 hle q hq
  exact ⟨p, hp, (hk p hp).symm (hqs.key q hq) hpk, (hv p hp).symm (hqs.value q hq) hpv⟩

theorem equates_map (hd : Pairs.Distinct ps) (hps : ∀ p ∈ ps, Exact p.1)
    (hk : ∀ p ∈ ps, Equates p.1) (hv : ∀ p ∈ ps, Equates p.2) : Equates (map ps) where
  refl := same_map_iff.2 ⟨ps, rfl, rfl, fun p hp => ⟨p, hp, (hk p hp).refl, (hv p hp).refl⟩⟩
  symm he huv := by
    obtain ⟨qs, rfl, hlen, h⟩ := same_map_iff.1 huv
    exact same_map_iff.2 ⟨ps, rfl, hlen.symm, pairIn_symm hd hk hv hps he h (Nat.le_of_eq hlen.symm)⟩
  trans he he' huv hvw := by
    obtain ⟨qs, rfl, hlen, h⟩ := same_map_iff.1 huv
    obtain ⟨rs, rfl, hlen', h'⟩ := same_map_iff.1 hvw
    refine same_map_iff.2 ⟨rs, rfl, hlen.trans hlen', fun p hp => ?_⟩
    obtain ⟨q, hq, hpq⟩ := h p hp
    obtain ⟨r, hr, hqr⟩ := h' q hq
    exact ⟨r, hr, (hk p hp).trans (he.key q hq) (he'.key r hr) hpq.1 hqr.1,
      (hv p hp).trans (he.value q hq) (he'.value r hr) hpq.2 hqr.2⟩

end Maps

/-! ### All exact values -/

theorem Exact.equates {u : Value} (h : Exact u) : Equates u := by
  induction h with
  | bool b => exact equates_of_eq fun _ => same_bool_iff
  | null => exact equates_of_eq fun _ => same_null_iff
  | string t quoted => exact equates_string t quoted
  | function f => exact equates_of_eq fun _ => same_function_iff
  | list s _ ih => exact equates_list s ih
  | map hd hk _ ihk ihv => exact equates_map hd hk ihk ihv

/-- **Maps are equal** if the pairs of either are found in the other: no length is needed then. -/
theorem same_map_iff_pairIn {ps qs : List (Value × Value)} (hps : Exact (map ps))
    (hqs : Exact (map qs)) :
    (map ps).same (map qs) = true ↔ (∀ p ∈ ps, PairIn p qs) ∧ ∀ q ∈ qs, PairIn q ps := by
  have key {rs : List (Value × Value)} (hrs : Exact (map rs)) : ∀ r ∈ rs, Equates r.1 :=
    fun r hr => (hrs.key r hr).equates
  constructor
  · intro h
    obtain ⟨_, heq, hlen, hfound⟩ := same_map_iff.1 h
    cases heq
    exact ⟨hfound, pairIn_symm hps.distinct (key hps) (fun p hp => (hps.value p hp).equates)
      hps.key hqs hfound (Nat.le_of_eq hlen.symm)⟩
  · rintro ⟨hpq, hqp⟩
    have hle := (matches_of_pairwise hpq (distinct_matches hps.distinct (key hps) hps.key hqs.key)).1
    have hge := (matches_of_pairwise hqp (distinct_matches hqs.distinct (key hqs) hqs.key hps.key)).1
    exact same_map_iff.2 ⟨qs, rfl, Nat.le_antisymm hle hge, hpq⟩

/-- Equality is an equivalence on a family of values. -/
def EquivalentOn (V : Value → Prop) : Prop :=
  Equivalence fun v w : {v : Value // V v} => v.1.same w.1 = true

theorem equivalentOn_exact : EquivalentOn Exact where
  refl v := v.2.equates.refl
  symm {v w} := v.2.equates.symm w.2
  trans {v w x} := v.2.equates.trans w.2 x.2

/-- **Equality is an equivalence** on exact values. Two maps of them are equal exactly if every pair
of either one has a pair with an equal key and an equal value in the other, so the order of the
pairs does not count. -/
theorem same_equivalence :
    EquivalentOn Exact ∧
    (∀ ps qs, Exact (map ps) → Exact (map qs) →
      ((map ps).same (map qs) = true ↔
        (∀ p ∈ ps, ∃ q ∈ qs, p.1.same q.1 = true ∧ p.2.same q.2 = true) ∧
        ∀ q ∈ qs, ∃ p ∈ ps, q.1.same p.1 = true ∧ q.2.same p.2 = true)) ∧
    ∀ ps qs, Exact (map ps) → List.Perm ps qs → (map ps).same (map qs) = true := by
  refine ⟨equivalentOn_exact, fun ps qs hps hqs => same_map_iff_pairIn hps hqs,
    fun ps qs hps hperm => ?_⟩
  refine same_map_iff.2 ⟨qs, rfl, hperm.length_eq, fun p hp => ⟨p, hperm.mem_iff.1 hp, ?_, ?_⟩⟩
  · exact (hps.key p hp).equates.refl
  · exact (hps.value p hp).equates.refl

/-- A map with a list and a map in it, with one string in quotes. -/
def nested : List (Value × Value) :=
  [(quoted "x", bool true), (list [null, unquoted "y"] .comma, map [(null, function "f")])]

/-- The same map from behind, with another string in quotes. -/
def nestedBack : List (Value × Value) :=
  [(list [null, quoted "y"] .comma, map [(null, function "f")]), (unquoted "x", bool true)]

theorem same_equivalence_nested :
    Exact (map nested) ∧ Exact (map nestedBack) ∧ (map nested).same (map nestedBack) = true ∧
      (map nestedBack).same (map nested) = true := by
  have pair {α : Type} {P : α → Prop} {x y : α} (hx : P x) (hy : P y) : ∀ z ∈ [x, y], P z :=
    List.forall_mem_cons.2 ⟨hx, List.forall_mem_singleton.2 hy⟩
  have hlist (q : Bool) : Exact (list [null, string "y" q] .comma) :=
    .list _ (pair .null (.string _ _))
  have hmap : Exact (map [(null, function "f")]) :=
    .map (List.pairwise_singleton _ _) (List.forall_mem_singleton.2 .null)
      (List.forall_mem_singleton.2 (.function _))
  have hn : Exact (map nested) :=
    .map (by unfold Pairs.Distinct; decide) (pair (.string _ _) (hlist _)) (pair (.bool _) hmap)
  have hb : Exact (map nestedBack) :=
    .map (by unfold Pairs.Distinct; decide) (pair (hlist _) (.string _ _)) (pair hmap (.bool _))
  have hsame := (same_equivalence.2.1 nested nestedBack hn hb).2 (by decide)
  exact ⟨hn, hb, hsame, same_equivalence.1.symm (x := ⟨_, hn⟩) (y := ⟨_, hb⟩) hsame⟩

end Value
end Stylesheet
