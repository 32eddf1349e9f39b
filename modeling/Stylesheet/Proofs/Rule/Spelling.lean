import Stylesheet.Rule.Headers

/-!
# Names in rules

A dash and an underscore are the same character in a name. Rules read the variables that they bind,
and the keywords of arguments, so that every spelling of a name reads the same. What stands in front
of the names of forwarded members is the exception: it has to end with a dash as it is spelled.

* `SameName`: two spellings of a name.
* `Rule.ReadAlike`: the parts of rules that read the same for two spellings.
* `Rule.sameFront_iff`: which two spellings of a front read the same.
-/

namespace Stylesheet

/-- **Two spellings of a name,** which differ in nothing but dashes and underscores. -/
abbrev SameName (n n' : String) : Prop := Name.ofString n = Name.ofString n'

theorem Name.ofString_append (s t : String) : ofString (s ++ t) = ofString s ++ ofString t := by
  have htext : (ofString (s ++ t)).text = (ofString s).text ++ (ofString t).text := by
    simp only [ofString, String.toList_append, List.map_append, String.ofList_append]
  exact ext htext

theorem SameName.append {m m' n n' : String} (hm : SameName m m') (hn : SameName n n') :
    SameName (m ++ n) (m' ++ n') := by
  unfold SameName
  rw [Name.ofString_append, Name.ofString_append, hm, hn]

namespace Rule

/-! ### Rules that load modules -/

/-- What a rule says about names that are spelled in two ways. -/
structure SameHeader (h h' : LoadHeader) : Prop where
  url : h'.url = h.url
  space : h'.namespace? = h.namespace?
  front : h'.front = h.front
  configuration : h'.configuration = h.configuration

/-- Rules that are read alike: they say the same, or are refused alike. -/
def SameLoad (r r' : Except Fault LoadHeader) : Prop :=
  r' = r ∨ ∃ h h', r = .ok h ∧ r' = .ok h' ∧ SameHeader h h'

/-- Another alias takes the place of the one that is spelled in two ways. -/
theorem SameHeader.withAlias {h h' : LoadHeader} (hh : SameHeader h h') (a : Alias) :
    SameHeader { h with as := a } { h' with as := a } where
  url := hh.url
  space := by
    unfold LoadHeader.namespace?
    rw [hh.url]
  front := rfl
  configuration := hh.configuration

theorem SameHeader.withConfiguration {h h' : LoadHeader} (hh : SameHeader h h')
    (c : Option (Except Fault (List (Name × Expr)))) :
    SameHeader { h with configuration := c } { h' with configuration := c } :=
  ⟨hh.url, hh.space, hh.front, rfl⟩

/-- Rules go on alike behind names that are spelled in two ways. -/
theorem sameLoad_loadOptions {what : Load} {h h' : LoadHeader} (hh : SameHeader h h')
    (ns : List Node) : SameLoad (loadOptions what h ns) (loadOptions what h' ns) := by
  fun_induction loadOptions what h ns generalizing h' with
  | case1 h => exact .inr ⟨h, h', rfl, rfl, hh⟩
  | case2 h n has =>
    rw [loadOptions, if_pos has]
    exact .inl rfl
  | case3 h n has target ns hstar ih =>
    rw [loadOptions, if_pos has]
    dsimp only
    rw [if_pos hstar]
    exact ih (hh.withAlias _)
  | case4 h n has target hstar hname front star ns hfront =>
    rename_i ih
    rw [loadOptions, if_pos has]
    dsimp only
    rw [if_neg hstar, if_pos hname, if_pos hfront]
    exact ih (hh.withAlias _)
  | case5 h n has target hstar hname front star ns hfront =>
    rename_i ih
    rw [loadOptions.eq_def what h']
    dsimp only
    rw [if_pos has, if_neg hstar, if_pos hname, if_neg hfront]
    exact ih (hh.withAlias _)
  | case6 h n has target hstar hname ih =>
    rw [loadOptions.eq_def what h']
    dsimp only
    rw [if_pos has, if_neg hstar, if_pos hname]
    exact ih (hh.withAlias _)
  | case7 h n has target ns hstar hname =>
    rw [loadOptions, if_pos has]
    dsimp only
    rw [if_neg hstar, if_neg hname]
    exact .inl rfl
  | case8 h n has hwith map ns hmap ih =>
    rw [loadOptions.eq_def what h']
    dsimp only
    rw [if_neg has, if_pos hwith, if_pos hmap]
    exact ih (hh.withConfiguration _)
  | case9 h n has hwith map ns hmap =>
    rw [loadOptions.eq_def what h']
    dsimp only
    rw [if_neg has, if_pos hwith, if_neg hmap]
    exact .inl rfl
  | case10 h n has hwith =>
    rw [loadOptions.eq_def what h']
    dsimp only
    rw [if_neg has, if_pos hwith]
    exact .inl rfl
  | case11 h n ns has hwith hcall ih =>
    rw [loadOptions.eq_def what h']
    dsimp only
    rw [if_neg has, if_neg hwith, if_pos hcall]
    exact ih (hh.withConfiguration _)
  | case12 h n ns has hwith hcall hshow =>
    rw [loadOptions.eq_def what h']
    dsimp only
    rw [if_neg has, if_neg hwith, if_neg hcall, if_pos hshow]
    exact .inr ⟨h, h', rfl, rfl, hh⟩
  | case13 h n ns has hwith hcall hshow =>
    rw [loadOptions.eq_def what h']
    dsimp only
    rw [if_neg has, if_neg hwith, if_neg hcall, if_neg hshow]
    exact .inl rfl

/-- **A namespace** reads the same in every spelling, if no star follows it. -/
theorem sameLoad_named {n n' : String} (h : SameName n n') (what : Load) (header : LoadHeader)
    (s₁ s₂ : Option Span) {rest : List Node} (hrest : ∀ star ∈ rest.head?, isStar star = false) :
    SameLoad
      (loadOptions what header (.leaf .identifier "as" s₁ :: .leaf .identifier n s₂ :: rest))
      (loadOptions what header (.leaf .identifier "as" s₁ :: .leaf .identifier n' s₂ :: rest)) := by
  have hread (m : String) : loadOptions what header
      (.leaf .identifier "as" s₁ :: .leaf .identifier m s₂ :: rest) =
        loadOptions what { header with as := .named m } rest := by
    have has : isWord "as" (.leaf .identifier "as" s₁) = true := rfl
    have hname : isStar (.leaf .identifier m s₂) = false := rfl
    have hidentifier : ((Node.leaf .identifier m s₂).is .identifier &&
        (Node.leaf .identifier m s₂).text?.isSome) = true := rfl
    rw [loadOptions.eq_def]
    dsimp only
    rw [if_pos has, hname, if_neg Bool.false_ne_true, if_pos hidentifier]
    cases rest with
    | nil => rfl
    | cons star rest =>
      dsimp only
      rw [hrest star rfl, Bool.and_false]
      rfl
  rw [hread, hread]
  have hheader : SameHeader { header with as := .named n } { header with as := .named n' } :=
    ⟨rfl, congrArg some h.symm, rfl, rfl⟩
  exact sameLoad_loadOptions hheader rest

/-! ### Fronts -/

/-- Whether a spelling ends with a dash. -/
def endsWithDash (n : String) : Bool := n.toList.getLast? == some '-'

/-- What a rule says that puts a front before the names of members, behind what it said so far. -/
def readFront (what : Load) (header : LoadHeader) (front : String) (s₁ s₂ s₃ : Option Span)
    (rest : List Node) : Except Fault LoadHeader :=
  loadOptions what header
    (.leaf .identifier "as" s₁ :: .leaf .identifier front s₂ :: .leaf .operator "*" s₃ :: rest)

/-- A star is not where a rule goes on. -/
theorem loadOptions_star (what : Load) (header : LoadHeader) (s : Option Span) (rest : List Node) :
    loadOptions what header (.leaf .operator "*" s :: rest) =
      .error (.unexpectedInRule "*" what.keyword) := by
  have hword (word : String) : isWord word (.leaf .operator "*" s) = false := rfl
  rw [loadOptions.eq_def]
  dsimp only
  rw [hword, hword, hword, hword]
  rfl

/-- **A front is read** only if it ends with a dash as it is spelled. -/
theorem readFront_eq (what : Load) (header : LoadHeader) (front : String)
    (s₁ s₂ s₃ : Option Span) (rest : List Node) :
    readFront what header front s₁ s₂ s₃ rest =
      if endsWithDash front then loadOptions what { header with as := .withFront front } rest
      else .error (.unexpectedInRule "*" what.keyword) := by
  have has : isWord "as" (.leaf .identifier "as" s₁) = true := rfl
  have hstar : isStar (.leaf .operator "*" s₃) = true := rfl
  have hname : isStar (.leaf .identifier front s₂) = false := rfl
  have hidentifier : ((Node.leaf .identifier front s₂).is .identifier &&
      (Node.leaf .identifier front s₂).text?.isSome) = true := rfl
  have hfront : ((Node.leaf .identifier front s₂).text.toList.getLast? == some '-') =
      endsWithDash front := rfl
  unfold readFront
  rw [loadOptions, if_pos has]
  dsimp only
  rw [hname, if_neg Bool.false_ne_true, if_pos hidentifier, hfront, hstar, Bool.and_true,
    loadOptions_star]
  rfl

/-- Whether two spellings of a front read the same in every rule. -/
def SameFront (n n' : String) : Prop :=
  ∀ what header s₁ s₂ s₃ rest,
    SameLoad (readFront what header n s₁ s₂ s₃ rest) (readFront what header n' s₁ s₂ s₃ rest)

/-- **Which fronts read the same:** spellings of one name of which both end with a dash, or none. -/
theorem sameFront_iff {n n' : String} (h : SameName n n') :
    SameFront n n' ↔ endsWithDash n = endsWithDash n' := by
  constructor
  · intro hsame
    have hread := hsame .use ⟨"", .ofUrl, none⟩ none none none []
    rw [readFront_eq, readFront_eq] at hread
    -- what a front is read as is no error
    cases hn : endsWithDash n <;> cases hn' : endsWithDash n' <;> rw [hn, hn'] at hread
    · rcases hread with hread | ⟨_, _, hread, _⟩ <;> cases hread
    · rcases hread with hread | ⟨_, _, _, hread, _⟩ <;> cases hread
  · intro hends what header s₁ s₂ s₃ rest
    rw [readFront_eq, readFront_eq, hends]
    cases endsWithDash n' with
    | false => exact .inl rfl
    | true =>
      have hheader : SameHeader { header with as := .withFront n }
          { header with as := .withFront n' } := ⟨rfl, rfl, h.symm, rfl⟩
      exact sameLoad_loadOptions hheader rest

/-! ### Names that rules read -/

/-- **What reads the same** for two spellings of a name: the variable of a `@for` loop, those of an
`@each` loop, a variable that is configured, a namespace, and the keyword of an argument. -/
structure ReadAlike (n n' : String) : Prop where
  each : ∀ before span rest, (∀ m ∈ before, isWord "in" m = false) →
    each (before ++ .leaf .variable n span :: rest) =
      each (before ++ .leaf .variable n' span :: rest)
  for? : ∀ before span rest, (∀ m ∈ before, isWord "from" m = false) →
    for? (before ++ .leaf .variable n span :: rest) =
      for? (before ++ .leaf .variable n' span :: rest)
  configured : ∀ span rest,
    configured (.leaf .variable n span :: rest) = configured (.leaf .variable n' span :: rest)
  named : ∀ what header s₁ s₂ rest, (∀ star ∈ rest.head?, isStar star = false) →
    SameLoad
      (loadOptions what header (.leaf .identifier "as" s₁ :: .leaf .identifier n s₂ :: rest))
      (loadOptions what header (.leaf .identifier "as" s₁ :: .leaf .identifier n' s₂ :: rest))
  keyword : ∀ its behind, Expr.skip its = .colon :: behind →
    Expr.keyword (.variable n :: its) = Expr.keyword (.variable n' :: its)

section

variable {n n' : String} {before rest : List Node} {span : Option Span}

/-- A word is not looked for in what a variable is called. -/
theorem findIdx?_isWord_variable (n n' word : String) :
    (before ++ .leaf .variable n span :: rest).findIdx? (isWord word) =
      (before ++ .leaf .variable n' span :: rest).findIdx? (isWord word) := by
  have hword (m : String) : isWord word (.leaf .variable m span) = false := rfl
  rw [List.findIdx?_append, List.findIdx?_append, List.findIdx?_cons, List.findIdx?_cons, hword,
    hword]

/-- A word that stands behind a variable. -/
theorem findIdx?_isWord_behind {word : String} {i : Nat}
    (hbefore : ∀ m ∈ before, isWord word m = false)
    (h : (before ++ .leaf .variable n span :: rest).findIdx? (isWord word) = some i) :
    before.length < i := by
  have hword : isWord word (.leaf .variable n span) = false := rfl
  rw [List.findIdx?_append, List.findIdx?_eq_none_iff.2 hbefore, Option.none_or,
    Option.map_eq_some_iff, List.findIdx?_cons, hword] at h
  obtain ⟨j, hj, rfl⟩ := h
  obtain ⟨k, -, rfl⟩ := Option.map_eq_some_iff.1 hj
  omega

theorem drop_variable {i : Nat} (hi : before.length < i) :
    (before ++ .leaf .variable n span :: rest).drop i = rest.drop (i - before.length - 1) := by
  obtain ⟨k, rfl⟩ := Nat.exists_eq_add_of_lt hi
  rw [List.drop_append, List.drop_eq_nil_of_le (by omega), List.nil_append]
  have hk : before.length + k + 1 - before.length = k + 1 := by omega
  rw [hk, List.drop_succ_cons, Nat.add_sub_cancel]

theorem take_variable {i : Nat} (hi : before.length < i) :
    (before ++ .leaf .variable n span :: rest).take i =
      before ++ .leaf .variable n span :: rest.take (i - before.length - 1) := by
  obtain ⟨k, rfl⟩ := Nat.exists_eq_add_of_lt hi
  rw [List.take_append, List.take_of_length_le (by omega)]
  have hk : before.length + k + 1 - before.length = k + 1 := by omega
  rw [hk, List.take_succ_cons, Nat.add_sub_cancel]

theorem each_sameName (h : SameName n n') (hin : ∀ m ∈ before, isWord "in" m = false) :
    each (before ++ .leaf .variable n span :: rest) =
      each (before ++ .leaf .variable n' span :: rest) := by
  unfold each
  rw [findIdx?_isWord_variable n n']
  cases hi : (before ++ .leaf .variable n' span :: rest).findIdx? (isWord "in") with
  | none => rfl
  | some i =>
    have hlt := findIdx?_isWord_behind hin hi
    have hlt' : before.length < i + 1 := by omega
    dsimp only
    rw [take_variable hlt, take_variable hlt, drop_variable hlt', drop_variable hlt']
    have hnames (m : String) (ns : List Node) :
        ((before ++ .leaf .variable m span :: ns).filter (·.is .variable)).filterMap Node.text? =
          (before.filter (·.is .variable)).filterMap Node.text? ++
            m :: (ns.filter (·.is .variable)).filterMap Node.text? := by
      rw [List.filter_append, List.filterMap_append]
      rfl
    rw [hnames, hnames, if_neg (by simp), if_neg (by simp)]
    simp only [List.map_append, List.map_cons, h]

/-- The bound of a `@for` loop stands behind its start. -/
theorem lt_of_bound? {params : List Node} {start stop : Nat} {inclusive : Bool}
    (h : bound? params start = some (stop, inclusive)) : start < stop := by
  have hbehind (word : String) (i : Nat)
      (hi : (params.findIdx? (isWord word)).filter (start < ·) = some i) : start < i :=
    of_decide_eq_true (Option.filter_eq_some_iff.1 hi).2
  unfold bound? at h
  dsimp only at h
  rcases Option.or_eq_some_iff.1 h with h | ⟨-, h⟩
  · obtain ⟨i, hi, hstop⟩ := Option.map_eq_some_iff.1 h
    cases hstop
    exact hbehind _ _ hi
  · obtain ⟨i, hi, hstop⟩ := Option.map_eq_some_iff.1 h
    cases hstop
    exact hbehind _ _ hi

theorem for?_sameName (h : SameName n n') (hfrom : ∀ m ∈ before, isWord "from" m = false) :
    for? (before ++ .leaf .variable n span :: rest) =
      for? (before ++ .leaf .variable n' span :: rest) := by
  unfold for?
  rw [findIdx?_isWord_variable n n']
  cases hstart : (before ++ .leaf .variable n' span :: rest).findIdx? (isWord "from") with
  | none => rfl
  | some start =>
    have hbound : bound? (before ++ .leaf .variable n span :: rest) start =
        bound? (before ++ .leaf .variable n' span :: rest) start := by
      unfold bound?
      simp only [findIdx?_isWord_variable n n']
    dsimp only
    rw [hbound]
    cases hstop : bound? (before ++ .leaf .variable n' span :: rest) start with
    | none => rfl
    | some stop =>
      have hlt := findIdx?_isWord_behind hfrom hstart
      have hle : start < stop.1 := lt_of_bound? hstop
      dsimp only
      rw [take_variable hlt, take_variable hlt, List.drop_take, List.drop_take,
        drop_variable (Nat.lt_succ_of_lt hlt), drop_variable (Nat.lt_succ_of_lt hlt),
        drop_variable (Nat.lt_succ_of_lt (Nat.lt_trans hlt hle)),
        drop_variable (Nat.lt_succ_of_lt (Nat.lt_trans hlt hle)), List.find?_append,
        List.find?_append]
      -- the loop is named by the first variable, which may stand before the one that is spelled
      cases before.find? (·.is .variable) with
      | some m => rfl
      | none =>
        change Except.ok (ForHeader.mk (.ofString n) _ _ _) = .ok (ForHeader.mk (.ofString n') _ _ _)
        rw [h]

/-- **Rules that bind variables** read every spelling of a name alike. -/
theorem readAlike (h : SameName n n') : ReadAlike n n' where
  each _ _ _ := each_sameName h
  for? _ _ _ := for?_sameName h
  configured _ _ := by
    simp only [configured, h]
  named what header s₁ s₂ _ hrest := sameLoad_named h what header s₁ s₂ hrest
  keyword its behind hits := by
    simp only [Expr.keyword, Expr.skip, hits, h]

end

end Rule
end Stylesheet
