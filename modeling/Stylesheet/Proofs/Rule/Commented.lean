import Stylesheet.Proofs.Rule.Muted
import Stylesheet.Proofs.Rule.Sought

/-!
# Rules with comments

With comments at marked blanks rules say the same, but for two: an import keeps the calls that it
finds as they are written, and an `@else` only sees its condition behind blanks.

* `Rule.loadOptions_commented`, `Rule.for?_commented`: parts of rules.
* `Stmt.Admits`: what may not be marked in the parameters of a rule.
* `Stmt.ofAtRule_commented`: rules with comments say the same.
-/

namespace Stylesheet

open Node

variable {Marked : Node → Prop} {p : Expr.Spot} {ns ns' : List Node}

/-! ### Parts of rules -/

theorem muteResult_ok {α : Type} {mute : α → α} {a a' : α} (h : mute a' = mute a) :
    muteResult mute (.ok a') = muteResult mute (.ok a) := congrArg Except.ok h

/-- Results of a list are the same but for their texts if those of its elements are. -/
theorem mapM_mute {α β γ : Type} {R : α → β → Prop} {mute : γ → γ} {f : α → Except Fault γ}
    {g : β → Except Fault γ} (hfg : ∀ a b, R a b → muteResult mute (g b) = muteResult mute (f a))
    {as : List α} {bs : List β} (h : List.Forall₂ R as bs) :
    muteResult (List.map mute) (bs.mapM g) = muteResult (List.map mute) (as.mapM f) := by
  induction h with
  | nil => rfl
  | @cons a b as bs hab _ ih =>
    have hone := hfg a b hab
    rw [List.mapM_cons, List.mapM_cons]
    generalize f a = r at hone
    generalize g b = r' at hone
    generalize as.mapM f = rs at ih
    generalize bs.mapM g = rs' at ih
    cases r with
    | error e =>
      cases r' with
      | error e' => exact congrArg Except.error (Except.error.inj hone)
      | ok c' => cases hone
    | ok c =>
      cases r' with
      | error e' => cases hone
      | ok c' =>
        cases rs with
        | error e =>
          cases rs' with
          | error e' => exact congrArg Except.error (Except.error.inj ih)
          | ok cs' => cases ih
        | ok cs =>
          cases rs' with
          | error e' => cases ih
          | ok cs' =>
            refine muteResult_ok ?_
            rw [List.map_cons, List.map_cons, Except.ok.inj hone, Except.ok.inj ih]

namespace Rule

theorem firmTest_isWord (word : String) : FirmTest (isWord word) := firmTest_isLeaf rfl word

/-- Parameters may be cut at the words of loops and at that of a condition. -/
theorem cuts_of_isWord {word : String} (h : word ∈ cutWords) {n : Node}
    (hn : isWord word n = true) : n.cuts = true := List.any_eq_true.2 ⟨word, h, hn⟩

theorem findIdx?_word (h : Commented Marked p ns ns') (word : String)
    (hword : word ∈ cutWords) :
    Option.Rel (CutAlike Marked p ns ns') (ns.findIdx? (isWord word))
      (ns'.findIdx? (isWord word)) :=
  h.findIdx?_firm (firmTest_isWord word) fun _ => cuts_of_isWord hword

theorem each_commented (h : Commented Marked p ns ns') :
    muteResult EachHeader.mute (each ns') = muteResult EachHeader.mute (each ns) := by
  unfold each
  have hindex := findIdx?_word h "in" (by decide)
  generalize ns.findIdx? (isWord "in") = i at hindex
  generalize ns'.findIdx? (isWord "in") = i' at hindex
  cases hindex with
  | none => rfl
  | some hcut =>
    have hvariable : FirmTest (·.is .variable) := firmTest_is rfl
    dsimp only
    rw [hcut.front.filter_firm hvariable]
    split
    · rfl
    · refine muteResult_ok ?_
      rw [EachHeader.mute, EachHeader.mute, Expr.ofNodes_commented hcut.behind]

/-- Two cuts are in the same order. -/
theorem cuts_in_order {start start' stop stop' : Nat}
    (hstart : ns.findIdx? (isWord "from") = some start)
    (hstart' : ns'.findIdx? (isWord "from") = some start')
    (h : Commented Marked p (ns.take stop) (ns'.take stop')) :
    (start < stop ↔ start' < stop') ∧ (start < stop → Commented Marked .front
      ((ns.take stop).drop (start + 1)) ((ns'.take stop').drop (start' + 1))) := by
  have hindex := findIdx?_word h "from" (by decide)
  rw [List.findIdx?_take, List.findIdx?_take, hstart, hstart'] at hindex
  by_cases hlt : start < stop <;> by_cases hlt' : start' < stop' <;>
    simp only [Option.bind_some, Option.guard, hlt, hlt', decide_true, decide_false, if_true,
      if_false, Bool.false_eq_true] at hindex
  · cases hindex with
    | some hcut => exact ⟨by simp [hlt, hlt'], fun _ => hcut.behind⟩
  · cases hindex
  · cases hindex
  · exact ⟨by simp [hlt, hlt'], fun h => absurd h hlt⟩

/-- Where the word before the last number stands. -/
theorem bound?_commented (h : Commented Marked p ns ns') {start start' : Nat}
    (hstart : ns.findIdx? (isWord "from") = some start)
    (hstart' : ns'.findIdx? (isWord "from") = some start') :
    Option.Rel (fun b b' => b'.2 = b.2 ∧ start < b.1 ∧ CutAlike Marked p ns ns' b.1 b'.1)
      (bound? ns start) (bound? ns' start') := by
  have hbehind (word : String) (hword : word ∈ cutWords) : Option.Rel
      (fun i i' => start < i ∧ CutAlike Marked p ns ns' i i')
      ((ns.findIdx? (isWord word)).filter (start < ·))
      ((ns'.findIdx? (isWord word)).filter (start' < ·)) := by
    have hindex := findIdx?_word h word hword
    generalize ns.findIdx? (isWord word) = i at hindex
    generalize ns'.findIdx? (isWord word) = i' at hindex
    cases hindex with
    | none => exact .none
    | @some i i' hcut =>
      obtain ⟨hlt, -⟩ := cuts_in_order hstart hstart' hcut.front
      simp only [Option.filter, ← hlt]
      split
      · next hs => exact .some ⟨by simpa using hs, hcut⟩
      · exact .none
  have hthrough := hbehind "through" (by decide)
  have hto := hbehind "to" (by decide)
  unfold bound?
  dsimp only
  generalize (ns.findIdx? (isWord "through")).filter (start < ·) = i at hthrough
  generalize (ns'.findIdx? (isWord "through")).filter (start' < ·) = i' at hthrough
  generalize (ns.findIdx? (isWord "to")).filter (start < ·) = j at hto
  generalize (ns'.findIdx? (isWord "to")).filter (start' < ·) = j' at hto
  cases hthrough with
  | some h => exact .some ⟨rfl, h⟩
  | none =>
    cases hto with
    | none => exact .none
    | some h => exact .some ⟨rfl, h⟩

theorem for?_commented (h : Commented Marked p ns ns') :
    muteResult ForHeader.mute (for? ns') = muteResult ForHeader.mute (for? ns) := by
  unfold for?
  have hindex := findIdx?_word h "from" (by decide)
  cases hs : ns.findIdx? (isWord "from") with
  | none =>
    rw [hs] at hindex
    generalize ns'.findIdx? (isWord "from") = i' at hindex
    cases hindex
    rfl
  | some start =>
    cases hs' : ns'.findIdx? (isWord "from") with
    | none =>
      rw [hs, hs'] at hindex
      cases hindex
    | some start' =>
      rw [hs, hs'] at hindex
      cases hindex with
      | some hcut =>
        have hbound := bound?_commented h hs hs'
        dsimp only
        generalize bound? ns start = b at hbound
        generalize bound? ns' start' = b' at hbound
        cases hbound with
        | none => rfl
        | @some b b' hb =>
          obtain ⟨stop, inclusive⟩ := b
          obtain ⟨stop', inclusive'⟩ := b'
          obtain ⟨hincl, hlt, hstop⟩ := hb
          obtain rfl : inclusive' = inclusive := hincl
          have hlast := (cuts_in_order hs hs' hstop.front).2 hlt
          have hvariable : FirmTest (·.is .variable) := firmTest_is rfl
          dsimp only
          rw [hcut.front.find?_firm hvariable]
          cases ((ns.take start).find? (·.is .variable)).bind text? with
          | none => rfl
          | some name =>
            refine muteResult_ok ?_
            rw [ForHeader.mute, ForHeader.mute, Expr.ofNodes_commented hlast,
              Expr.ofNodes_commented hstop.behind]

/-! ### Functions -/

/-- Whether nodes are the three points of a parameter that takes what is left. -/
def isRest (ns : List Node) : Bool := ns.length = 3 && ns.all (·.isLeaf .punctuation ".")

theorem isRest_commented (h : Commented Marked p ns ns') : isRest ns' = isRest ns := by
  have hfirm {ns : List Node} (hr : isRest ns = true) : ∀ n ∈ ns, n.isFirm = true := by
    simp only [isRest, Bool.and_eq_true, List.all_eq_true] at hr
    exact fun n hn => firmTest_isLeaf rfl "." n (hr.2 n hn)
  rw [Bool.eq_iff_iff]
  constructor
  · intro hr
    rwa [h.eq_of_all_firm (.inr (hfirm hr))] at hr
  · intro hr
    rwa [← h.eq_of_all_firm (.inl (hfirm hr))] at hr

theorem parameter_error {function : String} {ns : List Node}
    (h : ∀ n ∈ ns.head?, ∀ name s, n ≠ .leaf .variable name s) :
    parameter function ns = .error (.invalidParameters function) := by
  unfold parameter
  split
  · next name s rest => exact absurd rfl (h _ rfl name s)
  · rfl

theorem parameter_commented (h : Commented Marked p ns ns') (function : String) :
    muteResult Parameter.mute (parameter function ns') =
      muteResult Parameter.mute (parameter function ns) := by
  rcases h.variable_cases with ⟨name, s, ms, ms', rfl, rfl, hms⟩ | ⟨hn, hn'⟩
  · have hrest := hms.trim
    unfold parameter
    dsimp only
    generalize trim ms = rest at hrest
    generalize trim ms' = rest' at hrest
    cases rest with
    | nil => rw [hrest.nil_left]
    | cons mark rest =>
      have hthree := isRest_commented hrest
      obtain ⟨mark', rest', rfl⟩ := hrest.exists_cons
      have hmark : mark'.isLeaf .punctuation ":" = mark.isLeaf .punctuation ":" :=
        hrest.test_first (firmTest_isLeaf rfl ":")
      unfold isRest at hthree
      dsimp only
      rw [hmark, hthree]
      cases hm : mark.isLeaf .punctuation ":" with
      | true =>
        obtain ⟨value, hvalue, hcommented⟩ := hrest.of_colon hm
        obtain ⟨rfl, rfl⟩ := List.cons.inj hvalue
        rw [if_pos rfl, if_pos rfl, hcommented.trim.isEmpty_eq]
        split
        · rfl
        · exact muteResult_ok (by simp [Parameter.mute, Expr.ofNodes_commented hcommented.trim])
      | false => rfl
  · rw [parameter_error hn, parameter_error hn']

theorem signature_commented (h : Commented Marked p ns ns') :
    muteResult Signature.mute (signature ns') = muteResult Signature.mute (signature ns) := by
  unfold signature
  have hcall := h.find?_function
  generalize ns.find? (·.is .function) = c at hcall
  generalize ns'.find? (·.is .function) = c' at hcall
  cases hcall with
  | none => rfl
  | @some c c' hc =>
    obtain ⟨hfunction, hc⟩ := hc
    have hargs : Commented Marked .front ((c.children[1]?.map children).getD [])
        ((c'.children[1]?.map children).getD []) := by
      have hrel := hc.arguments hfunction
      generalize c.children[1]?.map children = a at hrel
      generalize c'.children[1]?.map children = a' at hrel
      cases hrel with
      | none => exact .nil
      | some h => exact h
    have hparameters := mapM_mute (R := Commented Marked .front)
      (fun _ _ h => parameter_commented h ((c.children.head?.map Node.text).getD "")) hargs.parts
    dsimp only
    rw [hc.name hfunction]
    generalize (parts ((c.children[1]?.map children).getD [])).mapM
      (parameter ((c.children.head?.map Node.text).getD "")) = r at hparameters
    generalize (parts ((c'.children[1]?.map children).getD [])).mapM
      (parameter ((c.children.head?.map Node.text).getD "")) = r' at hparameters
    cases r with
    | error f =>
      cases r' with
      | error f' => exact congrArg Except.error (Except.error.inj hparameters)
      | ok ps' => cases hparameters
    | ok ps =>
      cases r' with
      | error f' => cases hparameters
      | ok ps' =>
        have hps : ps'.map Parameter.mute = ps.map Parameter.mute := Except.ok.inj hparameters
        have hrest (ps : List Parameter) :
            ps.dropLast.any Parameter.rest = (ps.map Parameter.mute).dropLast.any Parameter.rest := by
          rw [← List.map_dropLast, List.any_map]
          rfl
        simp only [bind, Except.bind, hrest ps', hps, ← hrest ps]
        split
        · rfl
        · exact muteResult_ok (by rw [Signature.mute, Signature.mute, hps])

/-! ### Modules -/

theorem skipTest_flag : SkipTest fun n => n.is .flag || n.isTrivia where
  trivia n h := by simp [h]
  bracket n htrivia hfirm := by
    rw [Bool.or_eq_false_iff]
    refine ⟨Bool.eq_false_iff.2 fun hflag => ?_, htrivia⟩
    rw [firmTest_is (k := .flag) rfl n hflag] at hfirm
    cases hfirm

theorem configured_error {ns : List Node}
    (h : ∀ n ∈ ns.head?, ∀ name s, n ≠ .leaf .variable name s) :
    configured ns = .error .invalidConfiguration := by
  unfold configured
  split
  · next name s rest => exact absurd rfl (h _ rfl name s)
  · rfl

/-- A variable and its value without its texts. -/
def muteSetting (x : Name × Expr) : Name × Expr := (x.1, x.2.mute)

theorem configured_commented (h : Commented Marked p ns ns') :
    muteResult muteSetting (configured ns') = muteResult muteSetting (configured ns) := by
  rcases h.variable_cases with ⟨name, s, ms, ms', rfl, rfl, hms⟩ | ⟨hn, hn'⟩
  · have hrest := hms.trim
    unfold configured
    dsimp only
    generalize trim ms = rest at hrest
    generalize trim ms' = rest' at hrest
    cases rest with
    | nil => rw [hrest.nil_left]
    | cons colon value =>
      obtain ⟨colon', value', rfl⟩ := hrest.exists_cons
      have hcolon : colon'.isLeaf .punctuation ":" = colon.isLeaf .punctuation ":" :=
        hrest.test_first (firmTest_isLeaf rfl ":")
      dsimp only
      rw [hcolon]
      cases hc : colon.isLeaf .punctuation ":" with
      | true =>
        obtain ⟨ms, hms, hcommented⟩ := hrest.of_colon hc
        obtain ⟨rfl, rfl⟩ := List.cons.inj hms
        have hvalue := (hcommented.trimBack skipTest_flag).trim
        rw [hvalue.isEmpty_eq]
        split
        · exact muteResult_ok (congrArg (Prod.mk _) (Expr.ofNodes_commented hvalue))
        · rfl
      | false => rfl
  · rw [configured_error hn, configured_error hn']

theorem configuration_commented (h : Commented Marked .front ns ns') :
    muteResult muteSettings (configuration ns') = muteResult muteSettings (configuration ns) :=
  mapM_mute (R := Commented Marked .front) (fun _ _ h => configured_commented h) h.parts

/-- Headers that are the same but for their texts, the configuration apart. -/
theorem mute_configured {header header' : LoadHeader} (hh : header'.mute = header.mute)
    {c c' : Option (Except Fault (List (Name × Expr)))}
    (hc : c'.map (muteResult muteSettings) = c.map (muteResult muteSettings)) :
    ({ header' with configuration := c' } : LoadHeader).mute =
      ({ header with configuration := c } : LoadHeader).mute := by
  simp only [LoadHeader.mute, LoadHeader.mk.injEq] at hh ⊢
  exact ⟨hh.1, hh.2.1, hc⟩

theorem mute_alias {header header' : LoadHeader} (hh : header'.mute = header.mute) (a : Alias) :
    ({ header' with as := a } : LoadHeader).mute = ({ header with as := a } : LoadHeader).mute := by
  simp only [LoadHeader.mute, LoadHeader.mk.injEq] at hh ⊢
  exact ⟨hh.1, trivial, hh.2.2⟩

/-- The first of nodes without blanks and comments. -/
theorem first_commented {n : Node} (h : Commented Marked p (n :: ns) ns')
    (hno : ∀ m ∈ n :: ns, m.isTrivia = false) : ∃ n' ms, ns' = n' :: ms ∧ Resembles Marked n n' ∧
      Commented Marked (p.past n) ns ms ∧ ∀ m ∈ ns, m.isTrivia = false := by
  obtain ⟨n', ms, hcons, hn, hms⟩ := h.of_cons_any (hno n List.mem_cons_self)
  exact ⟨n', ms, hcons, hn, hms, fun m hm => hno m (List.mem_cons_of_mem _ hm)⟩

/-- The first two of nodes without blanks and comments. -/
theorem firstTwo_commented {n m : Node} (h : Commented Marked p (n :: m :: ns) ns')
    (hno : ∀ k ∈ n :: m :: ns, k.isTrivia = false) :
    ∃ n' m' ms, ns' = n' :: m' :: ms ∧ Resembles Marked n n' ∧ Resembles Marked m m' ∧
      Commented Marked ((p.past n).past m) ns ms ∧ ∀ k ∈ ns, k.isTrivia = false := by
  obtain ⟨n', ms, rfl, hn, hms, hno⟩ := first_commented h hno
  obtain ⟨m', ms, rfl, hm, hms, hno⟩ := first_commented hms hno
  exact ⟨n', m', ms, rfl, hn, hm, hms, hno⟩

/-- The configuration that a call by the name `with` gives. -/
theorem callConfiguration_commented {n n' : Node} (hn : Resembles Marked n n')
    (h : n.is .function = true) :
    (n'.children[1]?.map fun m => configuration m.children).map (muteResult muteSettings) =
      (n.children[1]?.map fun m => configuration m.children).map (muteResult muteSettings) := by
  have harguments := hn.arguments h
  have hmap (n : Node) : (n.children[1]?.map fun m => configuration m.children) =
      (n.children[1]?.map children).map configuration := by
    rw [Option.map_map]
    rfl
  rw [hmap, hmap]
  generalize n.children[1]?.map children = a at harguments
  generalize n'.children[1]?.map children = a' at harguments
  cases harguments with
  | none => rfl
  | some h => exact congrArg some (configuration_commented h)

/-- A node that is no call by the name is none with comments. -/
theorem isCall_commented {n n' : Node} (hn : Resembles Marked n n')
    (h : ¬ (n.is .function && n.children.head?.bind text? == some "with") = true) :
    ¬ (n'.is .function && n'.children.head?.bind text? == some "with") = true := by
  intro h'
  have hfunction : n.is .function = true := by
    rw [← hn.is_eq]
    exact (Bool.and_eq_true_iff.1 h').1
  rw [hn.is_eq, hn.name hfunction] at h'
  exact h h'

/-- **What follows the URL** of a module says the same. -/
theorem loadOptions_commented (what : Load) (header : LoadHeader)
    (h : Commented Marked p ns ns') (hno : ∀ n ∈ ns, n.isTrivia = false) {header' : LoadHeader}
    (hh : header'.mute = header.mute) :
    muteResult LoadHeader.mute (loadOptions what header' ns') =
      muteResult LoadHeader.mute (loadOptions what header ns) := by
  have hword {n n' : Node} (hn : Resembles Marked n n') (word : String) :
      isWord word n' = isWord word n := hn.isLeaf_eq _ _
  have hstar {n n' : Node} (hn : Resembles Marked n n') : isStar n' = isStar n := hn.isLeaf_eq _ _
  -- each case looks at one, two or three nodes, which resemble those on the other side
  fun_induction loadOptions what header ns generalizing header' p ns' with
  | case1 header =>
    rw [h.nil_left]
    exact muteResult_ok hh
  | case2 header n has =>
    obtain ⟨n', ms, rfl, hn, hms, -⟩ := first_commented h hno
    rw [hms.nil_left]
    simp only [loadOptions, hword hn, has, if_true]
  | case3 header n has target ns hs ih =>
    obtain ⟨n', target', ms, rfl, hn, ht, hms, hno⟩ := firstTwo_commented h hno
    simp only [loadOptions, hword hn, has, hstar ht, hs, if_true]
    exact ih hms hno (mute_alias hh _)
  | case4 header n has target hs htarget front star ns hfront =>
    rename_i ih
    obtain ⟨n', target', ms, rfl, hn, ht, hms, hno⟩ := firstTwo_commented h hno
    obtain ⟨star', ms, rfl, hs', hms, hno⟩ := first_commented hms hno
    simp only [loadOptions, hword hn, has, hstar ht, hs, if_true, if_false, Bool.false_eq_true,
      ht.is_eq, ht.text, htarget, ht.text_eq, hstar hs',
      show (_ == some '-' && isStar star) = true from hfront]
    exact ih hms hno (mute_alias hh _)
  | case5 header n has target hs htarget front star ns hfront =>
    rename_i ih
    obtain ⟨n', target', ms, rfl, hn, ht, hms, hno⟩ := firstTwo_commented h hno
    obtain ⟨star', ms', rfl, hs', -, -⟩ := first_commented hms hno
    simp only [loadOptions, hword hn, has, hstar ht, hs, if_true, if_false, Bool.false_eq_true,
      ht.is_eq, ht.text, htarget, ht.text_eq, hstar hs',
      show ¬ (_ == some '-' && isStar star) = true from hfront]
    exact ih hms hno (mute_alias hh _)
  | case6 header n has target hs htarget ih =>
    obtain ⟨n', target', ms, rfl, hn, ht, hms, hno⟩ := firstTwo_commented h hno
    rw [hms.nil_left]
    simp only [loadOptions, hword hn, has, hstar ht, hs, if_true, if_false, Bool.false_eq_true,
      ht.is_eq, ht.text, htarget, ht.text_eq]
    exact muteResult_ok (mute_alias hh _)
  | case7 header n has target ns hs htarget =>
    obtain ⟨n', target', ms, rfl, hn, ht, hms, hno⟩ := firstTwo_commented h hno
    simp only [loadOptions, hword hn, has, hstar ht, hs, if_true, if_false, Bool.false_eq_true,
      ht.is_eq, ht.text, htarget]
  | case8 header n has hwith map ns hmap ih =>
    obtain ⟨n', map', ms, rfl, hn, hm, hms, hno⟩ := firstTwo_commented h hno
    simp only [loadOptions, hword hn, has, hwith, hm.is_eq, hmap, if_true, if_false,
      Bool.false_eq_true]
    exact ih hms hno (mute_configured hh (congrArg some (configuration_commented (hm.inside hmap))))
  | case9 header n has hwith map ns hmap =>
    obtain ⟨n', map', ms, rfl, hn, hm, hms, hno⟩ := firstTwo_commented h hno
    simp only [loadOptions, hword hn, has, hwith, hm.is_eq, hmap, if_true, if_false,
      Bool.false_eq_true]
  | case10 header n has hwith =>
    obtain ⟨n', ms, rfl, hn, hms, -⟩ := first_commented h hno
    rw [hms.nil_left]
    simp only [loadOptions, hword hn, has, hwith, if_true, if_false, Bool.false_eq_true]
  | case11 header n ns has hwith hcall ih =>
    obtain ⟨n', ms, rfl, hn, hms, hno⟩ := first_commented h hno
    have hfunction : n.is .function = true := (Bool.and_eq_true_iff.1 hcall).1
    rw [loadOptions.eq_def what header']
    simp only [hword hn, has, hwith, hn.is_eq, hn.name hfunction, hcall, if_true, if_false,
      Bool.false_eq_true]
    exact ih hms hno (mute_configured hh (callConfiguration_commented hn hfunction))
  | case12 header n ns has hwith hcall hend =>
    obtain ⟨n', ms, rfl, hn, hms, hno⟩ := first_commented h hno
    have hcall' := isCall_commented hn hcall
    rw [loadOptions.eq_def what header']
    simp only [hword hn, has, hwith, hcall', hend, if_true, if_false, Bool.false_eq_true]
    exact muteResult_ok hh
  | case13 header n ns has hwith hcall hend =>
    obtain ⟨n', ms, rfl, hn, hms, hno⟩ := first_commented h hno
    have hcall' := isCall_commented hn hcall
    rw [loadOptions.eq_def what header']
    simp only [hword hn, has, hwith, hcall', hend, if_false, Bool.false_eq_true]
    rfl

theorem load_commented (what : Load) (h : Commented Marked p ns ns') :
    muteResult LoadHeader.mute (load what ns') = muteResult LoadHeader.mute (load what ns) := by
  have hfilter := h.filter_trivia
  have hno : ∀ n ∈ ns.filter (!·.isTrivia), n.isTrivia = false := by
    intro n hn
    simpa using (List.mem_filter.1 hn).2
  unfold load
  generalize ns.filter (!·.isTrivia) = ms at hfilter hno
  generalize ns'.filter (!·.isTrivia) = ms' at hfilter
  cases ms with
  | nil => rw [hfilter.nil_left]
  | cons n ms =>
    obtain ⟨n', ms', rfl, hn, hms, hno⟩ := first_commented hfilter hno
    dsimp only
    rw [hn.is_eq, hn.is_eq, hn.text_eq]
    split
    · exact loadOptions_commented what _ hms hno rfl
    · rfl

end Rule

/-! ### Rules -/

namespace Stmt

/-- **What may not be marked** in the parameters of a rule: blanks in the calls of an import, and
those before the condition of an `@else`. -/
structure Admits (Marked : Node → Prop) (keyword : String) (params : List Node) : Prop where
  calls : keyword = "import" → ∀ n ∈ params, n.is .function = true → ∀ b ∈ n.nodes, ¬ Marked b
  condition : keyword = "else" → (elseIf? params).isSome = true →
    ∀ b ∈ params.takeWhile (·.is .space), ¬ Marked b

/-- Blanks and comments are no URLs. -/
theorem importUrls_trivia {gs : List Node} (hgs : ∀ g ∈ gs, g.isTrivia = true) (ns : List Node) :
    importUrls (gs ++ ns) = importUrls ns := by
  induction gs with
  | nil => rfl
  | cons g gs ih =>
    have hg := hgs g List.mem_cons_self
    rw [List.cons_append, ← ih fun g hg => hgs g (List.mem_cons_of_mem _ hg)]
    simp only [isTrivia, is, Bool.or_eq_true, beq_iff_eq] at hg
    rcases hg with (hg | hg) | hg <;> simp [importUrls, is, hg]

theorem importUrls_commented (h : Commented Marked p ns ns')
    (hcalls : ∀ n ∈ ns, n.is .function = true → ∀ b ∈ n.nodes, ¬ Marked b) :
    importUrls ns' = importUrls ns := by
  induction h with
  | nil => rfl
  | keep n _ ih =>
    have ih := ih fun m hm => hcalls m (List.mem_cons_of_mem _ hm)
    simp only [importUrls, ih]
  | @gap _ b gs ns ns' _ hblank hgs _ _ ih =>
    rw [importUrls_trivia fun g hg => (hgs.trivia g hg).1,
      ih fun m hm => hcalls m (List.mem_cons_of_mem _ hm)]
    exact (importUrls_trivia (fun g hg => (hblank.trivia g hg).1) ns).symm
  | bracket hk _ _ _ ih =>
    have ih := ih fun m hm => hcalls m (List.mem_cons_of_mem _ hm)
    rcases hk with rfl | rfl <;> simp [importUrls, is, kind, ih]
  | @call _ name s t cs cs' ns ns' _ hcs _ _ ih =>
    have ih := ih fun m hm => hcalls m (List.mem_cons_of_mem _ hm)
    have hsame := hcs.eq_of_unmarked fun b hb =>
      hcalls _ List.mem_cons_self rfl b (by simp [Node.call, nodes, nodesAll, hb])
    rw [hsame]
    simp only [importUrls, ih]

theorem elseIf?_space {n : Node} (h : n.is .space = true) (ns : List Node) :
    elseIf? (n :: ns) = elseIf? ns := by
  rw [elseIf?, elseIf?, List.dropWhile_cons, if_pos h]

theorem elseIf?_of_not {n : Node} (h : n.is .space = false) (ns : List Node) :
    elseIf? (n :: ns) = if n.isLeaf .identifier "if" then some (.ofNodes ns) else none := by
  rw [elseIf?, List.dropWhile_cons, if_neg (by simp [h])]

/-- Behind blanks and comments there is no condition if there is none without them. -/
theorem elseIf?_gap {gs : List Node} (hgs : ∀ g ∈ gs, g.isTrivia = true) (h : elseIf? ns = none) :
    elseIf? (gs ++ ns) = none := by
  induction gs with
  | nil => exact h
  | cons g gs ih =>
    have hg := hgs g List.mem_cons_self
    have ih := ih fun g hg => hgs g (List.mem_cons_of_mem _ hg)
    cases hspace : g.is .space with
    | true => rw [List.cons_append, elseIf?_space hspace, ih]
    | false =>
      have hif : g.isLeaf .identifier "if" = false :=
        FirmTest.of_not (firmTest_isLeaf rfl "if") (isFirm_of_isTrivia hg)
      rw [List.cons_append, elseIf?_of_not hspace, hif]
      rfl

/-- The condition of a link is found again. -/
theorem elseIf?_commented (h : Commented Marked p ns ns')
    (hcondition : (elseIf? ns).isSome = true → ∀ b ∈ ns.takeWhile (·.is .space), ¬ Marked b) :
    (elseIf? ns').map Expr.mute = (elseIf? ns).map Expr.mute := by
  induction h with
  | nil => rfl
  | @keep p n ns ns' h ih =>
    cases hspace : n.is .space with
    | true =>
      rw [elseIf?_space hspace, List.takeWhile_cons, if_pos hspace] at hcondition
      rw [elseIf?_space hspace, elseIf?_space hspace]
      exact ih fun hsome b hb => hcondition hsome b (List.mem_cons_of_mem _ hb)
    | false =>
      rw [elseIf?_of_not hspace, elseIf?_of_not hspace]
      split
      · next hif =>
        have hpast : p.past n = .unknown :=
          if_pos (Rule.cuts_of_isWord (by decide : "if" ∈ cutWords) hif)
        rw [hpast] at h
        exact congrArg some (Expr.ofNodes_commented (h.mono (Expr.Spot.unknown_within _)))
      · rfl
  | @gap _ b gs ns ns' hb hblank hgs _ _ ih =>
    have hspace : b.is .space = true := by
      obtain ⟨g, hg, hspace⟩ := hblank.blank
      rwa [List.mem_singleton.1 hg] at hspace
    rw [elseIf?_space hspace, List.takeWhile_cons, if_pos hspace] at hcondition
    rw [elseIf?_space hspace]
    have hnone : elseIf? ns = none := by
      cases hsome : elseIf? ns with
      | none => rfl
      | some c => exact absurd hb (hcondition (by rw [hsome]; rfl) b List.mem_cons_self)
    rw [hnone] at ih ⊢
    have hnone' : elseIf? ns' = none := by
      rw [← Option.map_eq_none_iff]
      exact ih fun hsome => by cases hsome
    rw [elseIf?_gap (fun g hg => (hgs.trivia g hg).1) hnone']
  | bracket hk _ _ _ _ => rcases hk with rfl | rfl <;> rfl
  | call _ _ _ _ _ => rfl

theorem ofAtRule_else (params : List Node) (body : List Stmt) :
    (ofAtRule "else" params body).mute =
      match (elseIf? params).map Expr.mute with
      | some c => .elseIfLink c (muteAll body)
      | none => .elseLink (muteAll body) := by
  show Piece.mute (match elseIf? params with
    | some c => .elseIfLink c body
    | none => .elseLink body) = _
  cases elseIf? params <;> rfl

/-- **Rules with comments** say the same. -/
theorem ofAtRule_commented {keyword : String} (h : Commented Marked .front ns ns')
    (ha : Admits Marked keyword ns) {body body' : List Stmt}
    (hbody : muteAll body' = muteAll body) :
    (ofAtRule keyword ns' body').mute = (ofAtRule keyword ns body).mute := by
  have he := Expr.ofNodes_commented h
  by_cases helse : keyword = "else"
  · subst helse
    rw [ofAtRule_else, ofAtRule_else, elseIf?_commented h (ha.condition rfl), hbody]
  unfold ofAtRule
  split
  case h_2 => exact absurd rfl helse
  case h_3 => rw [importUrls_commented h (ha.calls rfl)]
  all_goals
    simp only [Piece.mute, mute, he, hbody, Rule.load_commented _ h, Rule.each_commented h,
      Rule.for?_commented h, Rule.signature_commented h]

end Stmt
end Stylesheet
