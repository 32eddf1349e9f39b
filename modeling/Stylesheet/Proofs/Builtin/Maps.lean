import Stylesheet.Builtin.Functions
import Stylesheet.Proofs.Value.Closed
import Stylesheet.Proofs.Value.Equality

/-!
# Maps as finite maps

The pairs of a map under keys that are equal or not, where equality is an equivalence on the keys.
Merging goes through the pairs of the second map and changes the first as it goes; what comes out
is said at once by `Pairs.merge_eq`: the pairs of the first with new values where the second has
some, and behind them the pairs of the second whose keys are new. The laws of merging are read off
that.

* `Pairs.merge_eq`, `Pairs.get?_merge`, `Pairs.merge_assoc`: merging.
* `Pairs.get?_remove`: removing.
* `Builtin.map_laws`: the same of the functions that a stylesheet calls.
-/

namespace Stylesheet

/-! ### Equality on the keys -/

namespace Value

namespace EquivalentOn

variable {V : Value → Prop} (h : EquivalentOn V) {u v w : Value}
include h

theorem trans' (hu : V u) (hv : V v) (hw : V w) (huv : u.same v = true) (hvw : v.same w = true) :
    u.same w = true :=
  h.trans (x := ⟨u, hu⟩) (y := ⟨v, hv⟩) (z := ⟨w, hw⟩) huv hvw

theorem comm (hu : V u) (hv : V v) : u.same v = v.same u :=
  Bool.eq_iff_iff.2
    ⟨h.symm (x := ⟨u, hu⟩) (y := ⟨v, hv⟩), h.symm (x := ⟨v, hv⟩) (y := ⟨u, hu⟩)⟩

/-- Equal values are equal to the same values. -/
theorem congr_right (hu : V u) (hv : V v) (hw : V w) (hvw : v.same w = true) :
    u.same v = u.same w := by
  refine Bool.eq_iff_iff.2 ⟨fun huv => h.trans' hu hv hw huv hvw, fun huw => ?_⟩
  rw [h.comm hv hw] at hvw
  exact h.trans' hu hw hv huw hvw

end EquivalentOn
end Value

namespace Pairs

variable {K : Value → Prop} {k k' v : Value} {p : Value × Value} {ps qs rs : List (Value × Value)}
  {ks : List Value}

/-- The keys of a map. -/
def keys (ps : List (Value × Value)) : List Value := ps.map (·.1)

/-- All keys of a map are of a family. -/
def KeysIn (K : Value → Prop) (ps : List (Value × Value)) : Prop := ∀ p ∈ ps, K p.1

theorem keysIn_cons : KeysIn K (p :: ps) ↔ K p.1 ∧ KeysIn K ps :=
  List.forall_mem_cons

theorem keysIn_append : KeysIn K (ps ++ qs) ↔ KeysIn K ps ∧ KeysIn K qs :=
  List.forall_mem_append

/-! ### Looking up -/

theorem get?_append : get? (ps ++ qs) k = (get? ps k).or (get? qs k) := by
  simp [get?, List.find?_append, Option.map_or]

theorem hasKey_append : hasKey (ps ++ qs) k = (hasKey ps k || hasKey qs k) := List.any_append

theorem get?_cons : get? (p :: ps) k = if p.1.same k then some p.2 else get? ps k := by
  unfold get?
  rw [List.find?_cons]
  cases p.1.same k <;> rfl

theorem isSome_get? : (get? ps k).isSome = hasKey ps k := by
  unfold get? hasKey
  rw [Option.isSome_map, Bool.eq_iff_iff, List.find?_isSome, List.any_eq_true]

theorem get?_eq_none_iff : get? ps k = none ↔ hasKey ps k = false := by
  rw [← isSome_get?, Option.isSome_eq_false_iff, Option.isNone_iff_eq_none]

theorem hasKey_nil : hasKey [] k = false := rfl

theorem hasKey_cons : hasKey (p :: ps) k = (p.1.same k || hasKey ps k) := List.any_cons

theorem hasKey_keys : hasKey ps k = (keys ps).any (·.same k) := by
  rw [hasKey, keys, List.any_map]
  rfl

/-- Pairs that are left out do not count for a key that none of them has. -/
theorem get?_filter {f : Value × Value → Bool} (h : ∀ p ∈ ps, p.1.same k = true → f p = true) :
    get? (ps.filter f) k = get? ps k := by
  induction ps with
  | nil => rfl
  | cons p ps ih =>
    rw [List.forall_mem_cons] at h
    rw [List.filter_cons, get?_cons]
    by_cases hp : p.1.same k = true
    · rw [if_pos (h.1 hp), get?_cons, if_pos hp, if_pos hp]
    · rw [if_neg hp]
      split
      · rw [get?_cons, if_neg hp, ih h.2]
      · exact ih h.2

section Equivalence

variable (hK : Value.EquivalentOn K)
include hK

theorem get?_congr (hps : KeysIn K ps) (hk : K k) (hk' : K k') (h : k.same k' = true) :
    get? ps k = get? ps k' := by
  induction ps with
  | nil => rfl
  | cons p ps ih =>
    rw [keysIn_cons] at hps
    rw [get?_cons, get?_cons, hK.congr_right hps.1 hk hk' h, ih hps.2]

theorem hasKey_congr (hps : KeysIn K ps) (hk : K k) (hk' : K k') (h : k.same k' = true) :
    hasKey ps k = hasKey ps k' := by
  rw [← isSome_get?, ← isSome_get?, get?_congr hK hps hk hk' h]

/-- The key of the first pair of a map is not among those behind it. -/
theorem get?_head (hd : Distinct (p :: ps)) (hps : KeysIn K (p :: ps)) (hk : K k)
    (h : p.1.same k = true) : get? ps k = none := by
  rw [keysIn_cons] at hps
  rw [get?_eq_none_iff, hasKey_eq_false]
  intro q hq
  have hpq := (List.pairwise_cons.1 hd).1 q hq
  rw [← hK.congr_right (hps.2 q hq) hps.1 hk h, hK.comm (hps.2 q hq) hps.1]
  exact hpq

end Equivalence

/-! ### What comes out of merging -/

/-- The pairs of a map, with the values of another map under the keys that it has. -/
def updated (ps qs : List (Value × Value)) : List (Value × Value) :=
  ps.map fun p => (p.1, (get? qs p.1).getD p.2)

/-- The pairs of the second map under keys that the first does not have. -/
def added (ps qs : List (Value × Value)) : List (Value × Value) :=
  qs.filter fun q => !hasKey ps q.1

theorem updated_cons :
    updated (p :: ps) qs = (p.1, (get? qs p.1).getD p.2) :: updated ps qs := rfl

theorem keys_updated : keys (updated ps qs) = keys ps := by
  rw [keys, updated, List.map_map]
  rfl

theorem hasKey_updated : hasKey (updated ps qs) k = hasKey ps k := by
  rw [hasKey_keys, keys_updated, ← hasKey_keys]

theorem updated_append : updated (ps ++ qs) rs = updated ps rs ++ updated qs rs := List.map_append

theorem added_append : added ps (qs ++ rs) = added ps qs ++ added ps rs := List.filter_append ..

theorem keysIn_updated : KeysIn K (updated ps qs) ↔ KeysIn K ps := List.forall_mem_map

theorem keysIn_added (h : KeysIn K qs) : KeysIn K (added ps qs) :=
  fun q hq => h q (List.mem_filter.1 hq).1

theorem keys_added : keys (added ps qs) = (keys qs).filter fun k => !hasKey ps k := by
  rw [keys, added, keys, List.filter_map]
  rfl

theorem added_singleton : added ps [p] = if hasKey ps p.1 then [] else [p] := by
  unfold added
  rw [List.filter_cons]
  cases hasKey ps p.1 <;> rfl

/-- Nothing is updated under keys that the other map does not have. -/
theorem updated_eq_self (h : ∀ p ∈ ps, hasKey qs p.1 = false) : updated ps qs = ps := by
  unfold updated
  rw [List.map_congr_left (g := id), List.map_id]
  intro p hp
  rw [get?_eq_none_iff.2 (h p hp)]
  rfl

/-- New pairs are updated or found to be new in either order. -/
theorem added_updated : added ps (updated qs rs) = updated (added ps qs) rs := by
  unfold added updated
  rw [List.filter_map]
  rfl

theorem updated_updated :
    updated (updated ps qs) rs =
      ps.map fun p => (p.1, ((get? rs p.1).or (get? qs p.1)).getD p.2) := by
  unfold updated
  rw [List.map_map]
  refine List.map_congr_left fun p _ => ?_
  dsimp only [Function.comp]
  cases get? rs p.1 <;> rfl

section Equivalence

variable (hK : Value.EquivalentOn K)
include hK

theorem get?_updated (hps : KeysIn K ps) (hqs : KeysIn K qs) (hk : K k) :
    get? (updated ps qs) k = (get? ps k).map fun v => (get? qs k).getD v := by
  induction ps with
  | nil => rfl
  | cons p ps ih =>
    rw [keysIn_cons] at hps
    change get? ((p.1, _) :: updated ps qs) k = _
    rw [get?_cons, get?_cons, ih hps.2]
    split
    · next h => rw [get?_congr hK hqs hps.1 hk h, Option.map_some]
    · rfl

/-- **Setting a key** is merging with its pair. -/
theorem put_eq (hd : Distinct ps) (hps : KeysIn K ps) (hk : K k) :
    put k v ps = updated ps [(k, v)] ++ added ps [(k, v)] := by
  induction ps with
  | nil => rfl
  | cons p ps ih =>
    have hkeys := keysIn_cons.1 hps
    unfold put
    rw [updated_cons, get?_cons, hK.comm hk hkeys.1, added_singleton, hasKey_cons]
    by_cases hp : p.1.same k = true
    · -- no key behind is equal to `k`, so there is nothing more to update
      have hrest : ∀ q ∈ ps, hasKey [(k, v)] q.1 = false := by
        intro q hq
        have hqk := hasKey_eq_false.1 (get?_eq_none_iff.1 (get?_head hK hd hps hk hp)) q hq
        rw [hasKey_cons, hK.comm hk (hkeys.2 q hq), hqk]
        rfl
      rw [updated_eq_self hrest]
      simp only [hp, if_true, Option.getD_some, Bool.true_or, List.append_nil]
    · rw [ih (List.pairwise_cons.1 hd).2 hkeys.2, added_singleton]
      simp only [hp, Bool.false_or, List.cons_append]
      rfl

/-- In a map it does not matter which pair is looked at first. -/
theorem get?_cons_comm (hd : Distinct (p :: ps)) (hps : KeysIn K (p :: ps)) (hk : K k) :
    get? (p :: ps) k = (get? ps k).or (get? [p] k) := by
  rw [get?_cons, get?_cons]
  by_cases hp : p.1.same k = true
  · rw [if_pos hp, if_pos hp, get?_head hK hd hps hk hp, Option.none_or]
  · rw [if_neg hp, if_neg hp]
    exact Option.or_none.symm

/-- **What merging makes** of two maps: the first with new values, and behind it the pairs of the
second under new keys. -/
theorem merge_eq (hdp : Distinct ps) (hdq : Distinct qs) (hps : KeysIn K ps) (hqs : KeysIn K qs) :
    merge ps qs = updated ps qs ++ added ps qs := by
  induction qs generalizing ps with
  | nil =>
    rw [updated_eq_self fun _ _ => rfl]
    exact (List.append_nil ps).symm
  | cons q qs ih =>
    obtain ⟨hq, hqs'⟩ := keysIn_cons.1 hqs
    obtain ⟨hfirst, hdq'⟩ := List.pairwise_cons.1 hdq
    have hput : put q.1 q.2 ps = updated ps [q] ++ added ps [q] := put_eq hK hdp hps hq
    have hps' : KeysIn K (put q.1 q.2 ps) := by
      rw [hput]
      exact keysIn_append.2 ⟨keysIn_updated.2 hps, keysIn_added (keysIn_cons.2 ⟨hq, nofun⟩)⟩
    -- the pair that is set first is neither updated by the others nor does it hide one of them
    have hstays : updated (added ps [q]) qs = added ps [q] := by
      refine updated_eq_self fun p hp => ?_
      rw [List.mem_singleton.1 (List.mem_filter.1 hp).1]
      exact get?_eq_none_iff.1 (get?_head hK hdq hqs hq (hK.refl ⟨q.1, hq⟩))
    have hshows : added (updated ps [q] ++ added ps [q]) qs = added ps qs := by
      refine List.filter_congr fun r hr => ?_
      rw [hasKey_append, hasKey_updated, added_singleton]
      split
      · rw [hasKey_nil, Bool.or_false]
      · rw [hasKey_cons, hfirst r hr, hasKey_nil, Bool.or_false, Bool.or_false]
    have hboth : updated (updated ps [q]) qs = updated ps (q :: qs) := by
      rw [updated_updated]
      refine List.map_congr_left fun p hp => ?_
      rw [get?_cons_comm hK hdq hqs (hps p hp)]
    calc merge ps (q :: qs)
        = updated (put q.1 q.2 ps) qs ++ added (put q.1 q.2 ps) qs := ih (hdp.put _ _) hdq' hps' hqs'
      _ = updated (updated ps [q]) qs ++ updated (added ps [q]) qs ++ added ps qs := by
          rw [hput, updated_append, hshows]
      _ = updated ps (q :: qs) ++ (added ps [q] ++ added ps qs) := by
          rw [hboth, hstays, List.append_assoc]
      _ = updated ps (q :: qs) ++ added ps (q :: qs) := by
          rw [← added_append, List.singleton_append]

/-! ### The laws of merging -/

theorem keys_merge (hdp : Distinct ps) (hdq : Distinct qs) (hps : KeysIn K ps)
    (hqs : KeysIn K qs) :
    keys (merge ps qs) = keys ps ++ (keys qs).filter fun k => !hasKey ps k := by
  rw [merge_eq hK hdp hdq hps hqs, keys, List.map_append]
  exact congrArg₂ _ keys_updated keys_added

theorem keysIn_merge (hdp : Distinct ps) (hdq : Distinct qs) (hps : KeysIn K ps)
    (hqs : KeysIn K qs) : KeysIn K (merge ps qs) := by
  rw [merge_eq hK hdp hdq hps hqs]
  exact keysIn_append.2 ⟨keysIn_updated.2 hps, keysIn_added hqs⟩

/-- **Looking up in a merged map:** the second map comes first. -/
theorem get?_merge (hdp : Distinct ps) (hdq : Distinct qs) (hps : KeysIn K ps)
    (hqs : KeysIn K qs) (hk : K k) : get? (merge ps qs) k = (get? qs k).or (get? ps k) := by
  rw [merge_eq hK hdp hdq hps hqs, get?_append, get?_updated hK hps hqs hk]
  cases hp : get? ps k with
  | some v => cases get? qs k <;> rfl
  | none =>
    -- no pair of the second under the key is left out
    have hnew : ∀ q ∈ qs, q.1.same k = true → (!hasKey ps q.1) = true := by
      intro q hq h
      rw [hasKey_congr hK hps (hqs q hq) hk h, get?_eq_none_iff.1 hp]
      rfl
    rw [Option.map_none, Option.none_or, Option.or_none]
    exact get?_filter hnew

theorem hasKey_merge (hdp : Distinct ps) (hdq : Distinct qs) (hps : KeysIn K ps)
    (hqs : KeysIn K qs) (hk : K k) : hasKey (merge ps qs) k = (hasKey ps k || hasKey qs k) := by
  rw [← isSome_get?, get?_merge hK hdp hdq hps hqs hk, Option.isSome_or, isSome_get?, isSome_get?,
    Bool.or_comm]

theorem nil_merge (hd : Distinct ps) (hps : KeysIn K ps) : merge [] ps = ps := by
  rw [merge_eq hK .nil hd nofun hps]
  exact List.filter_eq_self.2 fun _ _ => rfl

/-- **Merging is associative,** also in the order of the pairs. -/
theorem merge_assoc (hdp : Distinct ps) (hdq : Distinct qs) (hdr : Distinct rs)
    (hps : KeysIn K ps) (hqs : KeysIn K qs) (hrs : KeysIn K rs) :
    merge (merge ps qs) rs = merge ps (merge qs rs) := by
  have hpq := keysIn_merge hK hdp hdq hps hqs
  have hqr := keysIn_merge hK hdq hdr hqs hrs
  have hupdated : updated (updated ps qs) rs = updated ps (merge qs rs) := by
    rw [updated_updated]
    refine List.map_congr_left fun p hp => ?_
    rw [get?_merge hK hdq hdr hqs hrs (hps p hp)]
  have hadded : added (merge ps qs) rs = added ps (added qs rs) := by
    unfold added
    rw [List.filter_filter]
    refine List.filter_congr fun r hr => ?_
    rw [hasKey_merge hK hdp hdq hps hqs (hrs r hr), Bool.not_or]
  calc merge (merge ps qs) rs
      = updated (merge ps qs) rs ++ added (merge ps qs) rs :=
        merge_eq hK (hdp.merge qs) hdr hpq hrs
    _ = updated (updated ps qs) rs ++ updated (added ps qs) rs ++ added ps (added qs rs) := by
        rw [hadded, merge_eq hK hdp hdq hps hqs, updated_append]
    _ = updated ps (merge qs rs) ++ (added ps (updated qs rs) ++ added ps (added qs rs)) := by
        rw [hupdated, added_updated, List.append_assoc]
    _ = updated ps (merge qs rs) ++ added ps (merge qs rs) := by
        rw [← added_append, merge_eq hK hdq hdr hqs hrs]
    _ = merge ps (merge qs rs) := (merge_eq hK hdp (hdq.merge rs) hps hqr).symm

/-! ### Removing keys -/

/-- **Looking up after removing keys:** a key that is equal to none of them is found as before. -/
theorem get?_remove (hps : KeysIn K ps) (hks : ∀ r ∈ ks, K r) (hk : K k)
    (h : ks.any (·.same k) = false) : get? (remove ps ks) k = get? ps k := by
  refine get?_filter fun p hp hpk => ?_
  rw [Bool.not_eq_true', List.any_eq_false]
  intro r hr hrp
  exact List.any_eq_false.1 h r hr (hK.trans' (hks r hr) (hps p hp) hk hrp hpk)

theorem hasKey_remove (hps : KeysIn K ps) (hks : ∀ r ∈ ks, K r) (hk : K k) :
    hasKey (remove ps ks) k = (hasKey ps k && !ks.any (·.same k)) := by
  cases hany : ks.any (·.same k) with
  | false => rw [← isSome_get?, get?_remove hK hps hks hk hany, isSome_get?, Bool.not_false,
      Bool.and_true]
  | true =>
    obtain ⟨r, hr, hrk⟩ := List.any_eq_true.1 hany
    rw [Bool.not_true, Bool.and_false, hasKey_eq_false]
    intro p hp
    obtain ⟨hp, hkept⟩ := List.mem_filter.1 hp
    refine Bool.eq_false_iff.2 fun hpk => ?_
    -- the pair would be equal to a key that is removed
    rw [Bool.not_eq_true', List.any_eq_false] at hkept
    exact hkept r hr (by rw [hK.congr_right (hks r hr) (hps p hp) hk hpk]; exact hrk)

end Equivalence

end Pairs

namespace Builtin

/-! ### The functions -/

/-- **A value stands for a map** with some pairs: a map, or the empty list. -/
inductive IsMap : Value → List (Value × Value) → Prop
  | map (ps : List (Value × Value)) : IsMap (.map ps) ps
  | empty (separator : Separator) : IsMap (.list [] separator) []

/-- A call of a built-in function by its name gives a value. -/
def Gives (name : String) (args : List Value) (v : Value) : Prop :=
  call? name args = some (.ok v)

theorem pairsOf_eq_ok {m : Value} {ps : List (Value × Value)} (h : IsMap m ps) :
    pairsOf m = .ok ps := by
  cases h <;> rfl

theorem gives_of_eq_ok {name : String} {f : List Value → Result Value} {args : List Value}
    {v : Value} (hname : ["grayscale", "invert", "opacity", "saturate"].contains name = false)
    (hf : functions.lookup name = some f) (h : f args = .ok v) : Gives name args v := by
  have hfilter : isFilter name args = false := by
    unfold isFilter
    split
    · exact hname
    · rfl
  unfold Gives call?
  rw [hfilter, hf, if_neg Bool.false_ne_true]
  dsimp only
  rw [h]
  rfl

section Calls

variable {m n k : Value} {ps qs : List (Value × Value)} (ks : List Value)

theorem gives_mapGet (h : IsMap m ps) :
    Gives "map-get" [m, k] ((Pairs.get? ps k).getD .null) := by
  refine gives_of_eq_ok (f := mapGet) (by decide) rfl ?_
  unfold mapGet two
  dsimp only
  rw [pairsOf_eq_ok h]
  rfl

theorem gives_mapHasKey (h : IsMap m ps) :
    Gives "map-has-key" [m, k] (.bool (Pairs.hasKey ps k)) := by
  refine gives_of_eq_ok (f := mapHasKey) (by decide) rfl ?_
  unfold mapHasKey two
  dsimp only
  rw [pairsOf_eq_ok h]
  rfl

theorem gives_mapKeys (h : IsMap m ps) : Gives "map-keys" [m] (.list (Pairs.keys ps) .comma) := by
  refine gives_of_eq_ok (f := mapKeys) (by decide) rfl ?_
  unfold mapKeys one
  dsimp only
  rw [pairsOf_eq_ok h]
  rfl

theorem gives_mapValues (h : IsMap m ps) :
    Gives "map-values" [m] (.list (ps.map (·.2)) .comma) := by
  refine gives_of_eq_ok (f := mapValues) (by decide) rfl ?_
  unfold mapValues one
  dsimp only
  rw [pairsOf_eq_ok h]
  rfl

theorem gives_mapMerge (h : IsMap m ps) (h' : IsMap n qs) :
    Gives "map-merge" [m, n] (.map (Pairs.merge ps qs)) := by
  refine gives_of_eq_ok (f := mapMerge) (by decide) rfl ?_
  unfold mapMerge two
  dsimp only
  rw [pairsOf_eq_ok h, pairsOf_eq_ok h']
  rfl

theorem gives_mapRemove (h : IsMap m ps) :
    Gives "map-remove" (m :: ks) (.map (Pairs.remove ps ks)) := by
  refine gives_of_eq_ok (f := mapRemove) (by decide) rfl ?_
  unfold mapRemove
  dsimp only
  rw [pairsOf_eq_ok h]
  rfl

/-- The value that is found under a key of a merged map is that of the second map if it has the
key, and of the first otherwise. -/
theorem gives_mapGet_merge {K : Value → Prop} (hK : Value.EquivalentOn K) {a b : Value}
    (ha : IsMap a ps) (hb : IsMap b qs) (hdp : Pairs.Distinct ps) (hdq : Pairs.Distinct qs)
    (hps : Pairs.KeysIn K ps) (hqs : Pairs.KeysIn K qs) (hk : K k) :
    ∃ v, Gives "map-get" [.map (Pairs.merge ps qs), k] v ∧
      Gives "map-get" [if Pairs.hasKey qs k then b else a, k] v := by
  refine ⟨_, gives_mapGet (.map _), ?_⟩
  rw [Pairs.get?_merge hK hdp hdq hps hqs hk]
  cases hqk : Pairs.get? qs k with
  | some v =>
    have hget := gives_mapGet (k := k) hb
    rw [hqk] at hget
    rw [← Pairs.isSome_get?, hqk]
    exact hget
  | none =>
    rw [← Pairs.isSome_get?, hqk]
    exact gives_mapGet ha

end Calls

/-- **The map functions are those of finite maps,** for maps with different keys in a family of
values on which equality is an equivalence: what is found in a merged map, and the order of its
keys; what is left and found after keys were removed; merging is associative and the empty map is
neutral, also in the order of the pairs; and the keys and the values of every map pair up. -/
theorem map_laws {K : Value → Prop} (hK : Value.EquivalentOn K) {a b c k : Value}
    {ps qs rs : List (Value × Value)} {ks : List Value} (ha : IsMap a ps) (hb : IsMap b qs)
    (hc : IsMap c rs) (hdp : Pairs.Distinct ps) (hdq : Pairs.Distinct qs)
    (hdr : Pairs.Distinct rs) (hps : ∀ p ∈ ps, K p.1) (hqs : ∀ q ∈ qs, K q.1)
    (hrs : ∀ r ∈ rs, K r.1) (hk : K k) (hks : ∀ r ∈ ks, K r) :
    ∃ ab bc removed,
      Gives "map-merge" [a, b] ab ∧ Gives "map-merge" [b, c] bc ∧
      Gives "map-remove" (a :: ks) removed ∧
      (∃ found, Gives "map-has-key" [b, k] (.bool found) ∧
        ∃ v, Gives "map-get" [ab, k] v ∧ Gives "map-get" [if found then b else a, k] v) ∧
      Gives "map-keys" [ab]
        (.list (ps.map (·.1) ++ (qs.map (·.1)).filter fun q => !ps.any (·.1.same q)) .comma) ∧
      removed = .map (ps.filter fun p => !ks.any (·.same p.1)) ∧
      Gives "map-has-key" [removed, k] (.bool (ps.any (·.1.same k) && !ks.any (·.same k))) ∧
      (ks.any (·.same k) = false →
        ∃ v, Gives "map-get" [removed, k] v ∧ Gives "map-get" [a, k] v) ∧
      (∃ abc, Gives "map-merge" [ab, c] abc ∧ Gives "map-merge" [a, bc] abc) ∧
      (∀ e, IsMap e [] →
        Gives "map-merge" [a, e] (.map ps) ∧ Gives "map-merge" [e, a] (.map ps)) ∧
      ∀ m es, IsMap m es → ∃ xs ys, Gives "map-keys" [m] (.list xs .comma) ∧
        Gives "map-values" [m] (.list ys .comma) ∧ xs.length = ys.length ∧ xs.zip ys = es := by
  refine ⟨_, _, _, gives_mapMerge ha hb, gives_mapMerge hb hc, gives_mapRemove ks ha,
    ⟨_, gives_mapHasKey hb, gives_mapGet_merge hK ha hb hdp hdq hps hqs hk⟩, ?_, rfl, ?_, ?_, ?_,
    ?_, ?_⟩
  · have := gives_mapKeys (.map (Pairs.merge ps qs))
    rw [Pairs.keys_merge hK hdp hdq hps hqs] at this
    exact this
  · have := gives_mapHasKey (k := k) (.map (Pairs.remove ps ks))
    rw [Pairs.hasKey_remove hK hps hks hk] at this
    exact this
  · intro hnone
    refine ⟨_, gives_mapGet (.map _), ?_⟩
    rw [Pairs.get?_remove hK hps hks hk hnone]
    exact gives_mapGet ha
  · refine ⟨_, gives_mapMerge (.map _) hc, ?_⟩
    rw [Pairs.merge_assoc hK hdp hdq hdr hps hqs hrs]
    exact gives_mapMerge ha (.map _)
  · intro e he
    refine ⟨gives_mapMerge ha he, ?_⟩
    have := gives_mapMerge he ha
    rw [Pairs.nil_merge hK hdp hps] at this
    exact this
  · intro m es hm
    refine ⟨_, _, gives_mapKeys hm, gives_mapValues hm, ?_, ?_⟩
    · rw [Pairs.keys, List.length_map, List.length_map]
    · exact (List.zip_of_prod rfl rfl).symm

/-- A map, and one that has a key of it in quotes. -/
def colors : List (Value × Value) := [(.unquoted "a", .bool true), (.unquoted "b", .null)]

def moreColors : List (Value × Value) :=
  [(.quoted "b", .function "f"), (.list [.null] .comma, .map [])]

theorem map_laws_colors :
    Pairs.Distinct colors ∧ Pairs.Distinct moreColors ∧ ∃ merged removed,
      Gives "map-merge" [.map colors, .map moreColors] merged ∧
      Gives "map-keys" [merged]
        (.list [.unquoted "a", .unquoted "b", .list [.null] .comma] .comma) ∧
      Gives "map-remove" [.map colors, .quoted "a"] removed ∧
      ∃ v, Gives "map-get" [removed, .quoted "b"] v ∧
        Gives "map-get" [.map colors, .quoted "b"] v := by
  have hdp : Pairs.Distinct colors := by unfold Pairs.Distinct; decide
  have hdq : Pairs.Distinct moreColors := by unfold Pairs.Distinct; decide
  have hps : ∀ p ∈ colors, p.1.Exact :=
    List.forall_mem_cons.2 ⟨.string _ _, List.forall_mem_singleton.2 (.string _ _)⟩
  have hqs : ∀ q ∈ moreColors, q.1.Exact :=
    List.forall_mem_cons.2 ⟨.string _ _,
      List.forall_mem_singleton.2 (.list _ (List.forall_mem_singleton.2 .null))⟩
  have hks : ∀ r ∈ [Value.quoted "a"], r.Exact := List.forall_mem_singleton.2 (.string _ _)
  obtain ⟨ab, _, removed, hab, _, hremoved, _, hkeys, _, _, hget, _⟩ :=
    map_laws Value.equivalentOn_exact (k := .quoted "b") (.map colors) (.map moreColors)
      (.empty .space) hdp hdq .nil hps hqs nofun (.string _ _) hks
  exact ⟨hdp, hdq, ab, removed, hab, hkeys, hremoved, hget (by decide)⟩

end Builtin
end Stylesheet
