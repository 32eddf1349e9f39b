import Stylesheet.Builtin.Functions
import Stylesheet.Proofs.Value.Closed

/-!
# What built-in functions yield

A built-in function makes values of a closed family of values of that family. It may refuse its
arguments, but never for a module that is not loaded, since it knows of no modules, nor for a number
that cannot be read, since it reads none.

* `Builtin.outcome_call?`, `Builtin.Library.outcome_call?`: calls of built-in functions.
-/

namespace Stylesheet

/-- Whether a call fails for a module that is not loaded. -/
def CallFault.isDangling : CallFault → Bool
  | .moduleNotLoaded _ => true
  | _ => false

/-- Whether an error is one of those that never end a rendering: a module that is not loaded, and a
number that cannot be read. -/
def RenderError.isExcluded : RenderError → Bool
  | .call _ f => f.isDangling
  | .fault f => f.isUnread
  | _ => false

namespace Builtin

variable {V : Value → Prop}

/-- A result that belongs to a family, or a fault of the arguments. -/
abbrev Sound {α : Type} (P : α → Prop) (r : Result α) : Prop :=
  Outcome (·.isDangling = false) P r

/-! ### Arguments -/

theorem sound_badCount {α : Type} {P : α → Prop} (low high : Nat) (args : List Value) :
    Sound P (badCount low high args) := rfl

theorem sound_numberOf (v : Value) : Sound (fun _ => True) (numberOf v) := by
  cases v <;> trivial

theorem sound_colorOf (v : Value) : Sound (fun _ => True) (colorOf v) := by
  cases v <;> trivial

theorem sound_stringOf (v : Value) : Sound (fun _ => True) (stringOf v) := by
  cases v <;> trivial

theorem sound_pairsOf (hV : Value.Closed V) {v : Value} (hv : V v) :
    Sound (fun ps => V (.map ps)) (pairsOf v) := by
  unfold pairsOf
  split
  · exact hv
  · exact hV.noPairs
  · rfl

theorem sound_one {P : Value → Prop} {f : Value → Result Value} {args : List Value}
    (hargs : ∀ a ∈ args, V a) (hf : ∀ a, V a → Sound P (f a)) : Sound P (one f args) := by
  unfold one
  split
  · exact hf _ (hargs _ List.mem_cons_self)
  · exact sound_badCount 1 1 _

theorem sound_two {P : Value → Prop} {f : Value → Value → Result Value} {args : List Value}
    (hargs : ∀ a ∈ args, V a) (hf : ∀ a b, V a → V b → Sound P (f a b)) :
    Sound P (two f args) := by
  unfold two
  split
  · next a b =>
    exact hf a b (hargs a List.mem_cons_self)
      (hargs b (List.mem_cons_of_mem _ List.mem_cons_self))
  · exact sound_badCount 2 2 _

/-! ### Colors -/

theorem sound_channelOf (v : Value) : Sound (fun _ => True) (channelOf v) :=
  (sound_numberOf v).bind fun _ _ => trivial

theorem sound_alphaOf (v : Value) : Sound (fun _ => True) (alphaOf v) :=
  (sound_numberOf v).bind fun _ _ => trivial

theorem sound_weightOf (v : Value) : Sound (fun _ => True) (weightOf v) :=
  (sound_numberOf v).bind fun _ _ => trivial

/-- A function whose values are all scalars. -/
abbrev Scalars (f : List Value → Result Value) : Prop := ∀ args, Sound (·.isScalar = true) (f args)

theorem scalars_one {f : Value → Result Value} (hf : ∀ a, Sound (·.isScalar = true) (f a)) :
    Scalars (one f) :=
  fun _ => sound_one (V := fun _ => True) (fun _ _ => trivial) fun a _ => hf a

theorem scalars_two {f : Value → Value → Result Value}
    (hf : ∀ a b, Sound (·.isScalar = true) (f a b)) : Scalars (two f) :=
  fun _ => sound_two (V := fun _ => True) (fun _ _ => trivial) fun a b _ _ => hf a b

theorem scalars_rgb : Scalars rgb := by
  intro args
  unfold rgb
  split
  · exact (sound_colorOf _).bind fun _ _ => (sound_alphaOf _).bind fun _ _ => rfl
  · exact (sound_channelOf _).bind fun _ _ => (sound_channelOf _).bind fun _ _ =>
      (sound_channelOf _).bind fun _ _ => rfl
  · exact (sound_channelOf _).bind fun _ _ => (sound_channelOf _).bind fun _ _ =>
      (sound_channelOf _).bind fun _ _ => (sound_alphaOf _).bind fun _ _ => rfl
  · rfl

theorem sound_hslWith (h s l : Value) (alpha : Float) :
    Sound (·.isScalar = true) (hslWith h s l alpha) :=
  (sound_numberOf h).bind fun _ _ => (sound_numberOf s).bind fun _ _ =>
    (sound_numberOf l).bind fun _ _ => rfl

theorem scalars_hsl : Scalars hsl := by
  intro args
  unfold hsl
  split
  · exact sound_hslWith _ _ _ _
  · exact (sound_alphaOf _).bind fun _ _ => sound_hslWith _ _ _ _
  · rfl

theorem scalars_channel (pick : Color → Float) : Scalars (channel pick) :=
  scalars_one fun v => (sound_colorOf v).bind fun _ _ => rfl

theorem scalars_hslChannel (pick : Color.Hsl → Float) (unit : String) :
    Scalars (hslChannel pick unit) :=
  scalars_one fun v => (sound_colorOf v).bind fun _ _ => rfl

theorem sound_shifted (shift : Color.Hsl → Float → Color.Hsl) (color amount : Value) :
    Sound (·.isScalar = true) (shifted shift color amount) :=
  (sound_colorOf color).bind fun _ _ => (sound_numberOf amount).bind fun _ _ => rfl

theorem scalars_faded (change : Float → Float → Float) : Scalars (faded change) :=
  scalars_two fun color amount =>
    (sound_colorOf color).bind fun _ _ => (sound_alphaOf amount).bind fun _ _ => rfl

theorem scalars_mix : Scalars mix := by
  intro args
  unfold mix
  dsimp only
  split
  · exact (sound_colorOf _).bind fun _ _ => (sound_colorOf _).bind fun _ _ => rfl
  · exact (sound_weightOf _).bind fun _ _ => (sound_colorOf _).bind fun _ _ =>
      (sound_colorOf _).bind fun _ _ => rfl
  · rfl

theorem scalars_invert : Scalars invert := by
  intro args
  unfold invert
  dsimp only
  split
  · exact (sound_colorOf _).bind fun _ _ => rfl
  · exact (sound_colorOf _).bind fun _ _ => (sound_weightOf _).bind fun _ _ => rfl
  · rfl

theorem scalars_colorFunctions : ∀ e ∈ colorFunctions, Scalars e.2 := by
  simp only [colorFunctions, List.forall_mem_cons]
  have shifting (f : Color.Hsl → Float → Color.Hsl) : Scalars (two (shifted f)) :=
    scalars_two fun color amount => sound_shifted f color amount
  have turned (f : Color.Hsl → Float → Color.Hsl) (x : Value) :
      Scalars (one fun c => shifted f c x) := scalars_one fun c => sound_shifted f c x
  exact ⟨scalars_rgb, scalars_rgb, scalars_hsl, scalars_hsl, scalars_channel _, scalars_channel _,
    scalars_channel _, scalars_channel _, scalars_channel _, scalars_hslChannel _ _,
    scalars_hslChannel _ _, scalars_hslChannel _ _, shifting _, shifting _, shifting _, shifting _,
    shifting _, turned _ _, turned _ _, scalars_faded _, scalars_faded _, scalars_faded _,
    scalars_faded _, scalars_mix, scalars_invert, nofun⟩

/-! ### Maps and lists -/

/-- A function that makes values of a family of values of the family. -/
abbrev Keeps (V : Value → Prop) (f : List Value → Result Value) : Prop :=
  ∀ args, (∀ a ∈ args, V a) → Sound V (f args)

section

variable (hV : Value.Closed V)
include hV

theorem keeps_of_scalars {f : List Value → Result Value} (hf : Scalars f) : Keeps V f :=
  fun args _ => (hf args).mono fun _ hv => hV.scalar hv

theorem keeps_mapGet : Keeps V mapGet := by
  intro args hargs
  refine sound_two hargs fun m key hm _ => (sound_pairsOf hV hm).bind fun ps hps => ?_
  change V ((Pairs.get? ps key).getD .null)
  cases hget : Pairs.get? ps key with
  | none => exact hV.scalar rfl
  | some v =>
    unfold Pairs.get? at hget
    obtain ⟨p, hp, rfl⟩ := Option.map_eq_some_iff.1 hget
    exact (hV.pair hps p (List.mem_of_find?_eq_some hp)).2

theorem keeps_mapHasKey : Keeps V mapHasKey :=
  fun _ hargs => sound_two hargs fun _ _ hm _ => (sound_pairsOf hV hm).bind fun _ _ => hV.scalar rfl

theorem keeps_mapKeys : Keeps V mapKeys := by
  intro args hargs
  refine sound_one hargs fun m hm => (sound_pairsOf hV hm).bind fun ps hps => ?_
  refine hV.list .comma fun v hv => ?_
  obtain ⟨p, hp, rfl⟩ := List.mem_map.1 hv
  exact (hV.pair hps p hp).1

theorem keeps_mapValues : Keeps V mapValues := by
  intro args hargs
  refine sound_one hargs fun m hm => (sound_pairsOf hV hm).bind fun ps hps => ?_
  refine hV.list .comma fun v hv => ?_
  obtain ⟨p, hp, rfl⟩ := List.mem_map.1 hv
  exact (hV.pair hps p hp).2

theorem keeps_mapMerge : Keeps V mapMerge :=
  fun _ hargs => sound_two hargs fun _ _ ha hb => (sound_pairsOf hV ha).bind fun _ hps =>
    (sound_pairsOf hV hb).bind fun _ hqs => hV.merge hps hqs

theorem keeps_mapRemove : Keeps V mapRemove := by
  intro args hargs
  unfold mapRemove
  split
  · rfl
  · next m keys =>
    exact (sound_pairsOf hV (hargs m List.mem_cons_self)).bind fun ps hps => hV.remove keys hps

theorem keeps_nth : Keeps V nth := by
  intro args hargs
  refine sound_two hargs fun l i hl _ => (sound_numberOf i).bind fun index _ => ?_
  dsimp only
  split
  · rfl
  · split
    · next v hv => exact hV.elements hl v (List.mem_of_getElem? hv)
    · rfl

theorem joined_mem {a b : Value} (ha : V a) (hb : V b) (separator : Option Separator) :
    V (joined a b separator) := by
  refine hV.list _ fun v hv => ?_
  rcases List.mem_append.1 hv with hv | hv
  · exact hV.elements ha v hv
  · exact hV.elements hb v hv

theorem extended_mem {l v : Value} (hl : V l) (hv : V v) (separator : Option Separator) :
    V (extended l v separator) := by
  refine hV.list _ fun w hw => ?_
  rcases List.mem_append.1 hw with hw | hw
  · exact hV.elements hl w hw
  · rw [List.mem_singleton] at hw
    rw [hw]
    exact hv

omit hV in
theorem sound_separatorOf (v : Value) : Sound (fun _ => True) (separatorOf v) := by
  unfold separatorOf
  split <;> trivial

theorem keeps_join : Keeps V join := by
  intro args hargs
  unfold join
  split
  · next a b =>
    exact joined_mem hV (hargs a (by simp)) (hargs b (by simp)) none
  · next a b s =>
    exact (sound_separatorOf s).bind fun separator _ =>
      joined_mem hV (hargs a (by simp)) (hargs b (by simp)) separator
  · rfl

theorem keeps_append : Keeps V append := by
  intro args hargs
  unfold append
  split
  · next l v =>
    exact extended_mem hV (hargs l (by simp)) (hargs v (by simp)) none
  · next l v s =>
    exact (sound_separatorOf s).bind fun separator _ =>
      extended_mem hV (hargs l (by simp)) (hargs v (by simp)) separator
  · rfl

omit hV in
theorem scalars_index : Scalars index := by
  refine scalars_two fun l v => ?_
  change Value.isScalar _ = true
  split <;> rfl

theorem keeps_collectionFunctions : ∀ e ∈ collectionFunctions, Keeps V e.2 := by
  simp only [collectionFunctions, List.forall_mem_cons]
  exact ⟨keeps_mapGet hV, keeps_mapKeys hV, keeps_mapValues hV, keeps_mapMerge hV,
    keeps_mapHasKey hV, keeps_mapRemove hV, keeps_nth hV,
    keeps_of_scalars hV (scalars_one fun _ => rfl), keeps_join hV, keeps_append hV,
    keeps_of_scalars hV scalars_index, keeps_of_scalars hV (scalars_one fun _ => rfl), nofun⟩

/-! ### Numbers, texts and types -/

omit hV in
theorem scalars_percentage : Scalars percentage := by
  refine scalars_one fun v => (sound_numberOf v).bind fun n _ => ?_
  split <;> rfl

omit hV in
theorem scalars_extremum (name : String) (better : Float → Float → Bool) :
    Scalars (extremum name better) := by
  intro args
  unfold extremum
  split
  · rfl
  · rfl
  · split <;> rfl

omit hV in
theorem scalars_ofText {f : String → Value} (hf : ∀ t, (f t).isScalar = true) :
    Scalars (ofText f) :=
  scalars_one fun v => (sound_stringOf v).bind fun _ _ => hf _

omit hV in
theorem scalars_onText (f : String → String) : Scalars (onText f) :=
  scalars_one fun v => (sound_stringOf v).bind fun _ _ => rfl

omit hV in
theorem scalars_onNumber (f : Float → Float) : Scalars (onNumber f) :=
  scalars_one fun v => (sound_numberOf v).bind fun _ _ => rfl

omit hV in
theorem keeps_choose : Keeps V choose := by
  intro args hargs
  unfold choose
  split
  · next condition yes no =>
    change V (if condition.isTruthy then yes else no)
    split
    · exact hargs yes (by simp)
    · exact hargs no (by simp)
  · rfl

theorem keeps_scalarFunctions : ∀ e ∈ scalarFunctions, Keeps V e.2 := by
  have scalars {f : List Value → Result Value} (hf : Scalars f) : Keeps V f :=
    keeps_of_scalars hV hf
  simp only [scalarFunctions, List.forall_mem_cons]
  exact ⟨keeps_choose, scalars (scalars_ofText fun _ => rfl), scalars (scalars_ofText fun _ => rfl),
    scalars (scalars_ofText fun _ => rfl), scalars (scalars_onText _), scalars (scalars_onText _),
    scalars (scalars_one fun _ => rfl), scalars (scalars_one fun _ => rfl),
    scalars (scalars_ofText fun _ => rfl), scalars scalars_percentage,
    scalars (scalars_onNumber _), scalars (scalars_onNumber _), scalars (scalars_onNumber _),
    scalars (scalars_onNumber _), scalars (scalars_extremum _ _), scalars (scalars_extremum _ _),
    scalars (scalars_one fun v => (sound_numberOf v).bind fun _ _ => rfl),
    scalars (scalars_one fun v => (sound_numberOf v).bind fun _ _ => rfl), nofun⟩

/-! ### Calls by name -/

theorem keeps_functions : ∀ e ∈ functions, Keeps V e.2 := by
  intro e he
  rw [functions, List.mem_append, List.mem_append] at he
  rcases he with (he | he) | he
  · exact keeps_of_scalars hV (scalars_colorFunctions e he)
  · exact keeps_collectionFunctions hV e he
  · exact keeps_scalarFunctions hV e he

omit hV in
theorem mem_of_lookup {α : Type} {name : String} {es : List (String × α)} {a : α}
    (h : es.lookup name = some a) : ∃ e ∈ es, e.2 = a := by
  obtain ⟨before, behind, hes, -⟩ := List.lookup_eq_some_iff.1 h
  refine ⟨(name, a), ?_, rfl⟩
  rw [hes]
  exact List.mem_append_right _ List.mem_cons_self

/-- **A call of a built-in function** makes values of a closed family of such values. -/
theorem outcome_call? {name : String} {args : List Value} {r : Except RenderError Value}
    (hargs : ∀ a ∈ args, V a) (h : call? name args = some r) :
    Outcome (·.isExcluded = false) V r := by
  unfold call? at h
  split at h
  · cases h
    exact hV.scalar rfl
  · split at h
    · next f hf =>
      cases h
      obtain ⟨e, he, rfl⟩ := mem_of_lookup hf
      exact (keeps_functions hV e he args hargs).mapError fun _ hfault => hfault
    · split at h
      · cases h
        rfl
      · cases h

namespace Library

theorem outcome_quotient (args : List Value) : Outcome (·.isExcluded = false) V (quotient args) := by
  unfold quotient
  split
  · next a b =>
    exact ((Value.computes_div a b).mono fun _ hv => hV.scalar hv).mapError fun _ hf => hf
  · rfl

/-- **So does a call of a function of a built-in module.** -/
theorem outcome_call? {l : Library} {name : String} {args : List Value}
    {r : Except RenderError Value} (hargs : ∀ a ∈ args, V a) (h : l.call? name args = some r) :
    Outcome (·.isExcluded = false) V r := by
  unfold call? at h
  split at h
  · cases h
    exact outcome_quotient hV args
  · exact Builtin.outcome_call? hV hargs h
  · split at h
    · exact Builtin.outcome_call? hV hargs h
    · cases h
  · exact Builtin.outcome_call? hV hargs h
  · exact Builtin.outcome_call? hV hargs h
  · exact Builtin.outcome_call? hV hargs h

omit hV in
theorem isScalar_constant? {l : Library} {name : String} {v : Value}
    (h : l.constant? name = some v) : v.isScalar = true := by
  unfold constant? at h
  split at h
  · cases h
    rfl
  · cases h
    rfl
  · cases h

end Library
end

end Builtin
end Stylesheet
