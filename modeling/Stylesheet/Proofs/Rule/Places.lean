import Stylesheet.Rule.OfNode

/-!
# Statements without places

The places of a tree do not show in the statements and expressions that are read from it.

* `Expr.ofNode_bare`, `Expr.ofNodes_bare`: expressions.
* `Stmt.ofTree_bare`: the statements of a tree.
-/

namespace Stylesheet

open Node

/-! ### Single nodes -/

namespace Node

@[simp] theorem is_bare (n : Node) (k : Kind) : n.bare.is k = n.is k := by simp [is]

@[simp] theorem text?_bare (n : Node) : n.bare.text? = n.text? := by cases n <;> rfl

@[simp] theorem text_bare (n : Node) : n.bare.text = n.text := by simp [text]

@[simp] theorem isLeaf_bare (n : Node) (k : Kind) (t : String) : n.bare.isLeaf k t = n.isLeaf k t := by
  simp [isLeaf]

@[simp] theorem isTrivia_bare (n : Node) : n.bare.isTrivia = n.isTrivia := by simp [isTrivia]

@[simp] theorem children_bare (n : Node) : n.bare.children = n.children.map bare := by
  cases n with
  | leaf k t s => rfl
  | single k c s => rfl
  | sequence k cs s => exact bareAll_eq_map cs

theorem firstChild?_bare (n : Node) (k : Kind) :
    n.bare.firstChild? k = (n.firstChild? k).map bare := by
  simp only [firstChild?, children_bare, List.find?_map, Function.comp_def, is_bare]

end Node

/-! ### Expressions -/

namespace Expr

/-- A reading of a node without its place. -/
def Reading.bare (r : Reading) : Reading := ⟨r.node.bare, r.expr⟩

theorem Reading.items_bare (r : Reading) : r.bare.items = r.items := by
  obtain ⟨n, e⟩ := r
  cases n with
  | leaf k t s => rfl
  | single k c s => simp [bare, Node.bare, items, ← print_bare (.single k c s)]
  | sequence k cs s => simp [bare, Node.bare, items, ← print_bare (.sequence k cs s)]

theorem isMember_bare (a b c : Node) : isMember a.bare b.bare c.bare = isMember a b c := by
  simp [isMember]

theorem joined_bare (rs : List Reading) : joined (rs.map Reading.bare) = joined rs := by
  fun_induction joined rs with
  | case1 a b c rest h ih =>
    have h' : isMember a.bare.node b.bare.node c.bare.node = true := by
      rw [← h]
      exact isMember_bare _ _ _
    simp only [List.map_cons, joined, if_pos h', ih]
    simp [Reading.bare, print_bare]
  | case2 a b c rest h ih =>
    have h' : ¬ isMember a.bare.node b.bare.node c.bare.node = true := by
      intro h'
      exact h ((isMember_bare _ _ _).symm.trans h')
    rw [List.map_cons, List.map_cons] at ih
    simp only [List.map_cons, joined, if_neg h', ih, Reading.items_bare]
  | case3 a b => simp [joined, Reading.items_bare]
  | case4 a => simp [joined, Reading.items_bare]
  | case5 => rfl

mutual

/-- **Places do not show in expressions.** -/
theorem ofNode_bare (n : Node) : ofNode n.bare = ofNode n := by
  cases n with
  | leaf k t s => rfl
  | single k c s => rw [ofNode, ← print_bare, Node.bare, ofNode]
  | sequence k cs s =>
    have hs := readings_bare cs
    have hargs := argumentItems_bare cs
    have hprint := print_bare (.sequence k cs s)
    have hhead : (bareAll cs).head?.map Node.text = cs.head?.map Node.text := by
      cases cs with
      | nil => rfl
      | cons c cs => simp [bareAll]
    rw [Node.bare] at hprint ⊢
    simp only [ofNode, hprint, hs, hargs, hhead, joined_bare]

theorem readings_bare (ns : List Node) : readings (bareAll ns) = (readings ns).map Reading.bare := by
  match ns with
  | [] => rfl
  | n :: ns =>
    rw [bareAll, readings, readings, ofNode_bare, readings_bare, List.map_cons]
    rfl

theorem argumentItems_bare (ns : List Node) : argumentItems (bareAll ns) = argumentItems ns := by
  match ns with
  | [] => rfl
  | [n] => rfl
  | n :: .leaf _ _ _ :: ns => rfl
  | n :: .single _ _ _ :: ns => rfl
  | n :: .sequence k cs s :: ns =>
    have hs := readings_bare cs
    simp only [bareAll, Node.bare, argumentItems, hs, joined_bare]

end

theorem itemsOf_bare (ns : List Node) : itemsOf (ns.map bare) = itemsOf ns := by
  rw [itemsOf, ← bareAll_eq_map, readings_bare, joined_bare, itemsOf]

@[simp] theorem ofNodes_bare (ns : List Node) : ofNodes (ns.map bare) = ofNodes ns := by
  rw [ofNodes, itemsOf_bare, ofNodes]

end Expr

/-! ### Parts of rules -/

namespace Rule

@[simp] theorem isWord_bare (word : String) (n : Node) : isWord word n.bare = isWord word n := by
  simp [isWord]

@[simp] theorem trim_bare (ns : List Node) : trim (ns.map bare) = (trim ns).map bare := by
  simp [trim, List.dropWhile_map, ← List.map_reverse, Function.comp_def]

theorem segments_bare (ns : List Node) :
    segments (ns.map bare) = (segments ns).map (·.map bare) := by
  induction ns with
  | nil => rfl
  | cons n ns ih =>
    simp only [List.map_cons, segments, isLeaf_bare, ih]
    split
    · rfl
    · cases segments ns <;> rfl

theorem parts_bare (ns : List Node) : parts (ns.map bare) = (parts ns).map (·.map bare) := by
  simp [parts, segments_bare, List.filter_map, Function.comp_def]

theorem parameters_bare (ns : List Node) : parameters (ns.map bare) = (parameters ns).map bare := by
  unfold parameters
  rw [← List.map_drop]
  dsimp only
  rw [List.getLast?_map]
  cases (ns.drop 1).getLast? with
  | none => rfl
  | some last =>
    simp only [Option.map_some, is_bare, isLeaf_bare]
    split
    · exact List.map_dropLast.symm
    · rfl

theorem each_bare (ns : List Node) : each (ns.map bare) = each ns := by
  simp only [each, List.findIdx?_map, Function.comp_def, isWord_bare, ← List.map_take,
    ← List.map_drop, List.filter_map, List.filterMap_map, is_bare, text?_bare, Expr.ofNodes_bare]

theorem bound?_bare (ns : List Node) (start : Nat) : bound? (ns.map bare) start = bound? ns start := by
  simp only [bound?, List.findIdx?_map, Function.comp_def, isWord_bare]

theorem for?_bare (ns : List Node) : for? (ns.map bare) = for? ns := by
  simp only [for?, List.findIdx?_map, Function.comp_def, isWord_bare, bound?_bare, ← List.map_take,
    ← List.map_drop, List.find?_map, is_bare, Option.bind_map, text?_bare, Expr.ofNodes_bare]

theorem parameter_bare (function : String) (ns : List Node) :
    parameter function (ns.map bare) = parameter function ns := by
  match ns with
  | [] => rfl
  | .single _ _ _ :: ns | .sequence _ _ _ :: ns => rfl
  | .leaf k name s :: ns =>
    rw [List.map_cons, Node.bare]
    by_cases hk : k = .variable
    · subst hk
      simp only [parameter, trim_bare]
      cases trim ns with
      | nil => rfl
      | cons mark ns => simp [List.map_cons]
    · simp [parameter, hk]

theorem signature_bare (ns : List Node) : signature (ns.map bare) = signature ns := by
  simp only [signature, List.find?_map, Function.comp_def, is_bare]
  cases ns.find? (·.is .function) with
  | none => rfl
  | some call =>
    have hname : (call.bare.children.head?.map Node.text) = call.children.head?.map Node.text := by
      simp [Function.comp_def]
    have hargs : (call.bare.children[1]?.map Node.children).getD [] =
        ((call.children[1]?.map Node.children).getD []).map bare := by
      cases h : call.children[1]? <;> simp [h]
    simp only [Option.map_some, hname, hargs, parts_bare, List.mapM_map, Function.comp_def,
      parameter_bare]

theorem configured_bare (ns : List Node) : configured (ns.map bare) = configured ns := by
  match ns with
  | [] => rfl
  | .single _ _ _ :: ns | .sequence _ _ _ :: ns => rfl
  | .leaf k name s :: ns =>
    rw [List.map_cons, Node.bare]
    by_cases hk : k = .variable
    · subst hk
      simp only [configured, trim_bare]
      cases trim ns with
      | nil => rfl
      | cons colon value =>
        simp [List.dropWhile_map, ← List.map_reverse, Function.comp_def]
    · simp [configured, hk]

theorem configuration_bare (ns : List Node) : configuration (ns.map bare) = configuration ns := by
  simp only [configuration, parts_bare, List.mapM_map, Function.comp_def, configured_bare]

@[simp] theorem isStar_bare (n : Node) : isStar n.bare = isStar n := by simp [isStar]

theorem loadOptions_bare (what : Load) (header : LoadHeader) (ns : List Node) :
    loadOptions what header (ns.map bare) = loadOptions what header ns := by
  have word (n : Node) : n.bare.children.head?.bind text? = n.children.head?.bind text? := by
    simp only [children_bare, List.head?_map, Option.bind_map, Function.comp_def, text?_bare]
  have second (n : Node) : (n.bare.children[1]?.map fun m => configuration m.children) =
      n.children[1]?.map fun m => configuration m.children := by
    simp [Option.map_map, Function.comp_def, configuration_bare]
  fun_induction loadOptions what header ns with
  | case11 header n ns has hwith hcall ih =>
    rw [List.map_cons, loadOptions.eq_def]
    simp only [isWord_bare, has, hwith, is_bare, word, second, hcall, if_true, ih]
    rfl
  | case12 header n ns has hwith hcall hend =>
    rw [List.map_cons, loadOptions.eq_def]
    simp only [isWord_bare, has, hwith, is_bare, word, hcall, hend, if_true]
    rfl
  | case13 header n ns has hwith hcall hend =>
    rw [List.map_cons, loadOptions.eq_def]
    simp only [isWord_bare, has, hwith, is_bare, word, hcall, hend, print_bare]
    rfl
  | _ => simp_all +zetaDelta [loadOptions, configuration_bare]

theorem load_bare (what : Load) (ns : List Node) : load what (ns.map bare) = load what ns := by
  simp only [load, List.filter_map, Function.comp_def, isTrivia_bare]
  cases ns.filter (!·.isTrivia) with
  | nil => rfl
  | cons n ns => simp [loadOptions_bare]

end Rule

/-! ### Statements -/

namespace Stmt

theorem ofDeclaration_bare (n : Node) : ofDeclaration n.bare = ofDeclaration n := by
  have name : ((n.bare.firstChild? .property).bind (·.firstChild? .variable)).bind text? =
      ((n.firstChild? .property).bind (·.firstChild? .variable)).bind text? := by
    simp only [firstChild?_bare, Option.bind_map, Function.comp_def]
    cases n.firstChild? .property with
    | none => rfl
    | some p =>
      simp only [Option.bind_some, Option.bind_map, Function.comp_def, text?_bare]
  have value : ((n.bare.firstChild? .value).map Node.children).getD [] =
      (((n.firstChild? .value).map Node.children).getD []).map bare := by
    rw [firstChild?_bare]
    cases n.firstChild? .value <;> simp
  simp only [ofDeclaration, name, value, children_bare, List.filter_map, List.filterMap_map,
    Function.comp_def, is_bare, text?_bare, Expr.ofNodes_bare]

theorem elseIf?_bare (ns : List Node) : elseIf? (ns.map bare) = elseIf? ns := by
  simp only [elseIf?, List.dropWhile_map, Function.comp_def, is_bare]
  cases ns.dropWhile (·.is .space) with
  | nil => rfl
  | cons n ns => simp

theorem importUrls_bare (ns : List Node) : importUrls (ns.map bare) = importUrls ns := by
  induction ns with
  | nil => rfl
  | cons n ns ih => simp only [List.map_cons, importUrls, is_bare, text_bare, print_bare, ih]

theorem ofAtRule_bare (keyword : String) (ns : List Node) (body : List Stmt) :
    ofAtRule keyword (ns.map bare) body = ofAtRule keyword ns body := by
  simp only [ofAtRule, Expr.ofNodes_bare, elseIf?_bare, importUrls_bare, Rule.load_bare,
    Rule.each_bare, Rule.for?_bare, Rule.signature_bare]

mutual

theorem piece?_bare (n : Node) : piece? n.bare = piece? n := by
  cases n with
  | leaf k t s => rfl
  | single k c s => rfl
  | sequence k cs s =>
    have hblock := block_bare cs
    have hdeclaration := ofDeclaration_bare (.sequence k cs s)
    have hkeyword : (cs.map bare).head?.map Node.text = cs.head?.map Node.text := by
      simp [Function.comp_def]
    have hrule (keyword : String) (body : List Stmt) :
        ofAtRule keyword (Rule.parameters (cs.map bare)) body =
          ofAtRule keyword (Rule.parameters cs) body := by
      rw [Rule.parameters_bare, ofAtRule_bare]
    rw [Node.bare, bareAll_eq_map] at hdeclaration ⊢
    rw [bareAll_eq_map] at hblock
    cases k with
    | declaration => exact congrArg (fun s => some (Piece.stmt s)) hdeclaration
    | rule => simp only [piece?, hblock]
    | atRule => simp only [piece?, hblock, hkeyword, hrule]
    | _ => rfl

theorem block_bare (ns : List Node) : block (bareAll ns) = block ns := by
  match ns with
  | [] => rfl
  | .leaf _ _ _ :: ns => exact block_bare ns
  | .single _ _ _ :: ns => exact block_bare ns
  | .sequence k cs s :: ns =>
    have hpieces := pieces_bare cs
    have hblock := block_bare ns
    by_cases hk : k = .block
    · subst hk
      simp only [bareAll, Node.bare, block, hpieces]
    · simp [bareAll, Node.bare, block, hk, hblock]

theorem pieces_bare (ns : List Node) : pieces (bareAll ns) = pieces ns := by
  match ns with
  | [] => rfl
  | n :: ns => rw [bareAll, pieces, pieces, piece?_bare, pieces_bare]

end

theorem ofNodes_bare (ns : List Node) : ofNodes (bareAll ns) = ofNodes ns := by
  rw [ofNodes, pieces_bare, ofNodes]

/-- **Places do not show in the statements** of a tree. -/
theorem ofTree_bare (tree : Node) : ofTree tree.bare = ofTree tree := by
  rw [ofTree, children_bare, ← bareAll_eq_map, ofNodes_bare, ofTree]

end Stmt
end Stylesheet
