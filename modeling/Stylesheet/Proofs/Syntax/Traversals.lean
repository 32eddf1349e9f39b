import Mathlib.Algebra.GroupWithZero.Nat
import Stylesheet.Proofs.Rule.Places
import Stylesheet.Syntax.Print
import Stylesheet.Syntax.Query

/-!
# Walks through a syntax tree

The searches, the tally, the copy without places and the printer go through a tree each in its own
way: some return at the first hit, some carry along what they have so far, some build their result
from those of the children. They all come to the same nodes in the same order, the one of `nodes`,
and none of them looks at places.

* `gather`, `countIn`: the search for all nodes and the tally in one pass, with what was found so
  far carried along.
* `walk_eq_foldl`: walks of this sort pass the nodes in order.
* `find?_eq`, `gather_eq`, `countIn_eq`, `length_nodes`: each walk by the list of nodes.
* `Tallies`, `tallies_tally`: the tally has the counts of the kinds, and nothing else.
* `nodes_bare`: without places there are the same nodes in the same order.
* `traversals_agree`: all of it for one tree.
-/

namespace Stylesheet
namespace Node

/-! ### Walks in one pass -/

/-- A node is put behind those that were found if it is of the kind. -/
def keep (k : Kind) (found : List Node) (n : Node) : List Node :=
  if n.is k then found ++ [n] else found

mutual

/-- The nodes of a kind are put behind those that were found before. -/
def gather (k : Kind) (found : List Node) : Node → List Node
  | leaf l t s => keep k found (leaf l t s)
  | single l c s => gather k (keep k found (single l c s)) c
  | sequence l cs s => gatherAll k (keep k found (sequence l cs s)) cs

/-- `gather` through the nodes of a list. -/
def gatherAll (k : Kind) (found : List Node) : List Node → List Node
  | [] => found
  | n :: ns => gatherAll k (gather k found n) ns

end

mutual

/-- The kinds of a tree are counted in with those that were counted before. -/
def countIn (t : List (Kind × Nat)) : Node → List (Kind × Nat)
  | leaf k _ _ => count k t
  | single k c _ => countIn (count k t) c
  | sequence k cs _ => countAllIn (count k t) cs

/-- `countIn` through the nodes of a list. -/
def countAllIn (t : List (Kind × Nat)) : List Node → List (Kind × Nat)
  | [] => t
  | n :: ns => countAllIn (countIn t n) ns

end

mutual

/-- The number of nodes of a tree. -/
def size : Node → Nat
  | leaf _ _ _ => 1
  | single _ c _ => c.size + 1
  | sequence _ cs _ => sizeAll cs + 1

/-- The number of nodes in and below the nodes of a list. -/
def sizeAll : List Node → Nat
  | [] => 0
  | n :: ns => n.size + sizeAll ns

end

/-! ### The order of the nodes -/

theorem find?_cons_is (k : Kind) (n : Node) (ns : List Node) :
    (n :: ns).find? (·.is k) = if n.kind = k then some n else ns.find? (·.is k) := by
  by_cases h : n.kind = k
  · rw [List.find?_cons_of_pos (by simp [is, h]), if_pos h]
  · rw [List.find?_cons_of_neg (by simp [is, h]), if_neg h]

mutual

/-- **The search for one node** takes the first in the order of the nodes. -/
theorem find?_eq (k : Kind) : (n : Node) → n.find? k = n.nodes.find? (·.is k)
  | leaf l t s => by
    rw [find?, nodes, find?_cons_is, kind, List.find?_nil]
  | single l c s => by
    rw [find?, nodes, find?_cons_is, kind, find?_eq k c]
  | sequence l cs s => by
    rw [find?, nodes, find?_cons_is, kind, findAmong?_eq k cs]

theorem findAmong?_eq (k : Kind) : (ns : List Node) → findAmong? k ns = (nodesAll ns).find? (·.is k)
  | [] => rfl
  | n :: ns => by
    rw [findAmong?, nodesAll, List.find?_append, find?_eq k n, findAmong?_eq k ns]

end

section

variable {α : Type} {visit walk : α → Node → α}

mutual

/-- **A walk in one pass** that visits each node before its children visits the nodes in order. -/
theorem walk_eq_foldl (h : ∀ a n, walk a n = n.children.foldl walk (visit a n)) (a : α) :
    (n : Node) → walk a n = n.nodes.foldl visit a
  | leaf k t s => by
    rw [h]
    rfl
  | single k c s => by
    rw [h, children, List.foldl_cons, List.foldl_nil, walk_eq_foldl h _ c, nodes, List.foldl_cons]
  | sequence k cs s => by
    rw [h, children, walkAll_eq_foldl h _ cs, nodes, List.foldl_cons]

theorem walkAll_eq_foldl (h : ∀ a n, walk a n = n.children.foldl walk (visit a n)) (a : α) :
    (ns : List Node) → ns.foldl walk a = (nodesAll ns).foldl visit a
  | [] => rfl
  | n :: ns => by
    rw [List.foldl_cons, walk_eq_foldl h a n, walkAll_eq_foldl h _ ns, nodesAll, List.foldl_append]

end

end

theorem gatherAll_eq (k : Kind) (found ns : List Node) :
    gatherAll k found ns = ns.foldl (gather k) found := by
  induction ns generalizing found with
  | nil => rfl
  | cons n ns ih => rw [gatherAll, ih, List.foldl_cons]

/-- One step of the search for all nodes, whatever the shape of the node. -/
theorem gather_step (k : Kind) (found : List Node) (n : Node) :
    n.gather k found = n.children.foldl (gather k) (keep k found n) := by
  cases n with
  | leaf l t s => rfl
  | single l c s => rfl
  | sequence l cs s => exact gatherAll_eq k _ cs

theorem countAllIn_eq (t : List (Kind × Nat)) (ns : List Node) :
    countAllIn t ns = ns.foldl countIn t := by
  induction ns generalizing t with
  | nil => rfl
  | cons n ns ih => rw [countAllIn, ih, List.foldl_cons]

/-- One step of the tally, whatever the shape of the node. -/
theorem countIn_step (t : List (Kind × Nat)) (n : Node) :
    n.countIn t = n.children.foldl countIn (count n.kind t) := by
  cases n with
  | leaf k s t => rfl
  | single k c s => rfl
  | sequence k cs s => exact countAllIn_eq _ cs

mutual

theorem length_nodes : (n : Node) → n.nodes.length = n.size
  | leaf _ _ _ => rfl
  | single _ c _ => by
    rw [nodes, List.length_cons, length_nodes c, size]
  | sequence _ cs _ => by
    rw [nodes, List.length_cons, length_nodesAll cs, size]

theorem length_nodesAll : (ns : List Node) → (nodesAll ns).length = sizeAll ns
  | [] => rfl
  | n :: ns => by
    rw [nodesAll, List.length_append, length_nodes n, length_nodesAll ns, sizeAll]

end

theorem foldl_keep (k : Kind) (found ns : List Node) :
    ns.foldl (keep k) found = found ++ ns.filter (·.is k) := by
  induction ns generalizing found with
  | nil => simp
  | cons n ns ih =>
    rw [List.foldl_cons, ih, keep, List.filter_cons]
    cases n.is k <;> simp

/-- What is found in one pass stands behind what was there. -/
theorem gather_eq (k : Kind) (found : List Node) (n : Node) :
    n.gather k found = found ++ n.selectAll k := by
  rw [walk_eq_foldl (gather_step k), foldl_keep, selectAll]

/-- What is counted in one pass is the tally. -/
theorem countIn_eq (n : Node) : n.countIn [] = n.tally := by
  rw [tally]
  exact walk_eq_foldl countIn_step [] n

theorem find?_eq_head? (n : Node) (k : Kind) : n.find? k = (n.selectAll k).head? := by
  rw [find?_eq, selectAll, List.head?_filter]

/-! ### Tallies

A count stops at the first name that comes behind its own, so it finds the entry of its kind in
tallies that are in order, and leaves them in order. -/

/-- An entry behind a count was there before, or it is the one of the kind that was counted. -/
theorem mem_count {k : Kind} {t : List (Kind × Nat)} {e : Kind × Nat} (h : e ∈ count k t) :
    e ∈ t ∨ e.1 = k ∧ e.2 ≠ 0 := by
  fun_induction count k t with
  | case1 =>
    rw [List.mem_singleton] at h
    exact .inr (by simp [h])
  | case2 n rest =>
    rcases List.mem_cons.1 h with rfl | h
    · exact .inr (by simp)
    · exact .inl (List.mem_cons_of_mem _ h)
  | case3 l n rest hne hlt =>
    rcases List.mem_cons.1 h with rfl | h
    · exact .inr (by simp)
    · exact .inl h
  | case4 l n rest hne hlt ih =>
    rcases List.mem_cons.1 h with rfl | h
    · exact .inl List.mem_cons_self
    · exact (ih h).imp_left (List.mem_cons_of_mem _)

theorem sum_count (k : Kind) (t : List (Kind × Nat)) :
    ((count k t).map (·.2)).sum = (t.map (·.2)).sum + 1 := by
  fun_induction count k t with
  | case1 => rfl
  | case2 n rest =>
    simp only [List.map_cons, List.sum_cons]
    omega
  | case3 l n rest hne hlt =>
    simp only [List.map_cons, List.sum_cons]
    omega
  | case4 l n rest hne hlt ih =>
    simp only [List.map_cons, List.sum_cons, ih]
    omega

/-- The entries stand in the order of the names of their kinds. -/
def Ordered (t : List (Kind × Nat)) : Prop := t.Pairwise fun a b => a.1.name ≤ b.1.name

/-- A kind whose name comes before the first one has no entry. -/
theorem Ordered.ne_of_lt {k l : Kind} {n : Nat} {rest : List (Kind × Nat)}
    (h : Ordered ((l, n) :: rest)) (hlt : k.name < l.name) : ∀ e ∈ (l, n) :: rest, e.1 ≠ k := by
  intro e he hek
  have hle : l.name ≤ e.1.name := by
    rcases List.mem_cons.1 he with rfl | he
    · exact String.le_refl _
    · exact (List.pairwise_cons.1 h).1 e he
  rw [hek] at hle
  exact String.not_le.2 hlt hle

theorem Ordered.count {k : Kind} {t : List (Kind × Nat)} (h : Ordered t) :
    Ordered (Node.count k t) := by
  unfold Ordered at h ⊢
  fun_induction Node.count k t with
  | case1 => exact List.pairwise_singleton _ _
  | case2 n rest => exact List.pairwise_cons.2 (List.pairwise_cons.1 h)
  | case3 l n rest hne hlt =>
    refine List.pairwise_cons.2 ⟨fun e he => ?_, h⟩
    have hl : k.name ≤ l.name := Std.le_of_lt hlt
    rcases List.mem_cons.1 he with rfl | he
    · exact hl
    · exact String.le_trans hl ((List.pairwise_cons.1 h).1 e he)
  | case4 l n rest hne hlt ih =>
    obtain ⟨hfirst, hrest⟩ := List.pairwise_cons.1 h
    refine List.pairwise_cons.2 ⟨fun e he => ?_, ih hrest⟩
    rcases mem_count he with he | ⟨hek, -⟩
    · exact hfirst e he
    · rw [hek]
      exact String.not_lt.1 hlt

theorem getD_lookup_cons (l m : Kind) (n : Nat) (rest : List (Kind × Nat)) :
    (((l, n) :: rest).lookup m).getD 0 = if l = m then n else (rest.lookup m).getD 0 := by
  by_cases h : l = m
  · rw [List.lookup_cons, if_pos h, h, beq_self_eq_true]
    rfl
  · rw [List.lookup_cons, if_neg h, beq_false_of_ne (Ne.symm h)]

/-- A count adds one to the number of the kind and nothing to those of the others. -/
theorem Ordered.lookup_count {k : Kind} {t : List (Kind × Nat)} (h : Ordered t) (m : Kind) :
    ((Node.count k t).lookup m).getD 0 = (t.lookup m).getD 0 + if k = m then 1 else 0 := by
  fun_induction Node.count k t with
  | case1 =>
    rw [getD_lookup_cons, List.lookup_nil, Option.getD_none, Nat.zero_add]
  | case2 n rest =>
    rw [getD_lookup_cons, getD_lookup_cons]
    split <;> rfl
  | case3 l n rest hne hlt =>
    rw [getD_lookup_cons]
    split
    · next hkm =>
      -- the kind has no entry yet: they all come behind its name
      have hnone : ((l, n) :: rest).lookup m = none :=
        List.lookup_eq_none_iff.2 fun e he => bne_iff_ne.2 (hkm ▸ (h.ne_of_lt hlt e he).symm)
      rw [hnone, Option.getD_none]
    · rfl
  | case4 l n rest hne hlt ih =>
    rw [getD_lookup_cons, getD_lookup_cons, ih (List.pairwise_cons.1 h).2]
    by_cases hlm : l = m
    · have hkm : k ≠ m := fun hkm => hne (hlm.trans hkm.symm)
      rw [if_pos hlm, if_pos hlm, if_neg hkm, Nat.add_zero]
    · rw [if_neg hlm, if_neg hlm]

theorem Ordered.nodup_count {k : Kind} {t : List (Kind × Nat)} (h : Ordered t)
    (hd : (t.map (·.1)).Nodup) : ((Node.count k t).map (·.1)).Nodup := by
  fun_induction Node.count k t with
  | case1 => exact List.pairwise_singleton _ _
  | case2 n rest => exact hd
  | case3 l n rest hne hlt =>
    refine List.nodup_cons.2 ⟨fun hk => ?_, hd⟩
    obtain ⟨e, he, hek⟩ := List.mem_map.1 hk
    exact h.ne_of_lt hlt e he hek
  | case4 l n rest hne hlt ih =>
    obtain ⟨hl, hrest⟩ := List.nodup_cons.1 hd
    refine List.nodup_cons.2 ⟨fun hmem => ?_, ih (List.pairwise_cons.1 h).2 hrest⟩
    obtain ⟨e, he, hel⟩ := List.mem_map.1 hmem
    rcases mem_count he with he | ⟨hek, -⟩
    · exact hl (hel ▸ List.mem_map_of_mem he)
    · exact hne (hel.symm.trans hek)

/-- A tally of kinds, given one by one. -/
structure Tallies (t : List (Kind × Nat)) (ks : List Kind) : Prop where
  ordered : Ordered t
  /-- No kind has two entries. -/
  distinct : (t.map (·.1)).Nodup
  /-- The entry of a kind says how often it was given. A kind without an entry was not. -/
  number (k : Kind) : (t.lookup k).getD 0 = ks.count k
  positive : ∀ e ∈ t, e.2 ≠ 0
  total : (t.map (·.2)).sum = ks.length

theorem tallies_nil : Tallies [] [] where
  ordered := .nil
  distinct := .nil
  number _ := rfl
  positive _ h := nomatch h
  total := rfl

/-- **One more kind** is counted in. -/
theorem Tallies.count {t : List (Kind × Nat)} {ks : List Kind} (h : Tallies t ks) (k : Kind) :
    Tallies (Node.count k t) (ks ++ [k]) where
  ordered := h.ordered.count
  distinct := h.ordered.nodup_count h.distinct
  number m := by
    rw [h.ordered.lookup_count, h.number, List.count_append, List.count_singleton]
    simp only [beq_iff_eq]
  positive e he := (mem_count he).elim (h.positive e) (·.2)
  total := by
    rw [sum_count, h.total, List.length_append, List.length_singleton]

theorem Tallies.foldl {t : List (Kind × Nat)} {ks : List Kind} (h : Tallies t ks) (ls : List Kind) :
    Tallies (ls.foldl (fun t k => Node.count k t) t) (ks ++ ls) := by
  induction ls generalizing t ks with
  | nil => rwa [List.append_nil]
  | cons l ls ih =>
    rw [List.foldl_cons, List.append_cons]
    exact ih (h.count l)

/-- **The tally of a tree** is one of the kinds of its nodes. -/
theorem tallies_tally (n : Node) : Tallies n.tally (n.nodes.map kind) := by
  have htally : n.tally = (n.nodes.map kind).foldl (fun t k => count k t) [] := by
    rw [tally, List.foldl_map]
  rw [htally]
  exact tallies_nil.foldl _

theorem count_kinds (n : Node) (k : Kind) :
    (n.nodes.map kind).count k = (n.selectAll k).length := by
  rw [List.count_eq_length_filter, List.filter_map, List.length_map]
  rfl

/-! ### Without places -/

mutual

/-- **Without places** there are the same nodes in the same order. -/
theorem nodes_bare : (n : Node) → n.bare.nodes = n.nodes.map bare
  | leaf _ _ _ => rfl
  | single k c s => by
    rw [bare, nodes, nodes, nodes_bare c, List.map_cons, bare]
  | sequence k cs s => by
    rw [bare, nodes, nodes, nodesAll_bareAll cs, List.map_cons, bare]

theorem nodesAll_bareAll : (ns : List Node) → nodesAll (bareAll ns) = (nodesAll ns).map bare
  | [] => rfl
  | n :: ns => by
    rw [bareAll, nodesAll, nodesAll, List.map_append, nodes_bare n, nodesAll_bareAll ns]

end

theorem span_bare (n : Node) : n.bare.span = none := by cases n <;> rfl

theorem selectAll_bare (n : Node) (k : Kind) : n.bare.selectAll k = (n.selectAll k).map bare := by
  rw [selectAll, selectAll, nodes_bare, List.filter_map]
  simp only [Function.comp_def, is_bare]

theorem find?_bare (n : Node) (k : Kind) : n.bare.find? k = (n.find? k).map bare := by
  rw [find?_eq_head?, find?_eq_head?, selectAll_bare, List.head?_map]

theorem tally_bare (n : Node) : n.bare.tally = n.tally := by
  rw [tally, tally, nodes_bare, List.foldl_map]
  simp only [kind_bare]

theorem size_bare (n : Node) : n.bare.size = n.size := by
  rw [← length_nodes, ← length_nodes, nodes_bare, List.length_map]

/-- Two trees that no walk tells apart by what it prints or counts. -/
structure LooksLike (m n : Node) : Prop where
  find? (k : Kind) : (m.find? k).map print = (n.find? k).map print
  selectAll (k : Kind) : (m.selectAll k).map print = (n.selectAll k).map print
  tally : m.tally = n.tally
  size : m.size = n.size
  print : m.print = n.print

theorem looksLike_bare (n : Node) : n.bare.LooksLike n where
  find? k := by
    rw [find?_bare, Option.map_map]
    simp only [Function.comp_def, print_bare]
  selectAll k := by
    rw [selectAll_bare, List.map_map]
    simp only [Function.comp_def, print_bare]
  tally := tally_bare n
  size := size_bare n
  print := print_bare n

/-- **The walks through a tree agree**, whatever is below what. The searches and the tally in one
pass give what the list of all nodes gives. The search for one node takes the first of all nodes of
the kind. The tally has the number of the nodes of each kind, has no entry for a kind without
nodes, and adds up to the number of all nodes. The copy without places has no place anywhere, is
its own copy, and no walk tells it from the tree. -/
theorem traversals_agree (n : Node) :
    ((∀ k, n.gather k [] = n.selectAll k) ∧ n.countIn [] = n.tally) ∧
    (∀ k, n.find? k = (n.selectAll k).head?) ∧
    ((∀ k, (n.tally.lookup k).getD 0 = (n.selectAll k).length) ∧
      (n.tally.map (·.1)).Nodup ∧ (∀ e ∈ n.tally, e.2 ≠ 0) ∧
      (n.tally.map (·.2)).sum = n.size) ∧
    (∀ k, n.bare.selectAll k = (n.selectAll k).map bare) ∧ n.bare.LooksLike n ∧
    (∀ m ∈ n.bare.nodes, m.span = none) ∧ n.bare.bare = n.bare := by
  have htally := tallies_tally n
  refine ⟨⟨fun k => ?_, ?_⟩, n.find?_eq_head?, ⟨fun k => ?_, htally.distinct, htally.positive, ?_⟩,
    n.selectAll_bare, n.looksLike_bare, ?_, n.bare_bare⟩
  · rw [gather_eq, List.nil_append]
  · exact n.countIn_eq
  · rw [htally.number, count_kinds]
  · rw [htally.total, List.length_map, length_nodes]
  · intro m hm
    rw [nodes_bare] at hm
    obtain ⟨l, -, rfl⟩ := List.mem_map.1 hm
    exact span_bare l

/-- A declaration with a node of each shape below others: the variable on its left side is under a
single child, the one on its right in a sequence. -/
theorem traversals_agree_declaration :
    let x : Node := .leaf .variable "x" (some ⟨0, 2⟩)
    let y : Node := .leaf .variable "y" (some ⟨3, 5⟩)
    let n : Node := .sequence .declaration [.single .property x (some ⟨0, 2⟩),
      .leaf .punctuation ":" (some ⟨2, 3⟩), .sequence .value [y] (some ⟨3, 5⟩)] (some ⟨0, 5⟩)
    n.selectAll .variable = [x, y] ∧ n.find? .variable = some x ∧
      n.tally =
        [(.declaration, 1), (.property, 1), (.punctuation, 1), (.value, 1), (.variable, 2)] ∧
      (n.tally.lookup .variable).getD 0 = 2 ∧ (n.tally.map (·.2)).sum = n.size ∧
      y.bare ∈ n.bare.nodes ∧ y.bare.span = none ∧ n.bare.print = "$x:$y" := by
  intro x y n
  obtain ⟨-, hfind, ⟨hnumber, -, -, hsum⟩, -, hbare, hplaces, -⟩ := traversals_agree n
  have hall : n.selectAll .variable = [x, y] := rfl
  have hmem : y ∈ n.selectAll .variable := by simp [hall]
  have hy : y.bare ∈ n.bare.nodes := by
    rw [nodes_bare]
    exact List.mem_map_of_mem (List.mem_filter.1 hmem).1
  refine ⟨hall, ?_, ?_, ?_, hsum, hy, hplaces _ hy, ?_⟩
  · rw [hfind, hall]
    rfl
  · decide +kernel
  · rw [hnumber, hall]
    rfl
  · rw [hbare.print]
    rfl

end Node
end Stylesheet
