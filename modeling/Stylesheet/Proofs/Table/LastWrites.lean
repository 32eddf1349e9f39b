import Mathlib.Data.List.Induction
import Mathlib.Data.List.Nodup
import Stylesheet.Table

/-!
# Tables that are written in order

A table to which entries are written one after the other has each key once, in the order in which
the keys first came, and under each key what was written last.

* `keys_ofList`: the keys of such a table.
* `find?_ofList`: what a key holds is found from the end of the writes.
* `LastWrites`, `lastWrites_ofList`: both together, for writes that are read off a list.
-/

namespace Stylesheet
namespace Table

variable {κ α β : Type} [BEq κ] [LawfulBEq κ]

/-- A table holds what the elements of a list write to it in order. -/
structure LastWrites (t : Table κ α) (key : β → κ) (value : β → α) (xs : List β) : Prop where
  /-- Each key is there once, at the place of the first element that writes it. -/
  keys : t.keys = (xs.map key).eraseDups
  /-- A key holds what the last element that writes it has. -/
  mem_entries (k : κ) (a : α) : (k, a) ∈ t.entries ↔
    ∃ before x after, xs = before ++ x :: after ∧ key x = k ∧ value x = a ∧ ∀ y ∈ after, key y ≠ k

omit [LawfulBEq κ] in
theorem ofList_append (es : List (κ × α)) (e : κ × α) :
    ofList (es ++ [e]) = (ofList es).insert e.1 e.2 := by
  unfold ofList insertAll
  rw [List.foldl_append]
  rfl

theorem distinct_ofList (es : List (κ × α)) : (ofList es).Distinct := distinct_empty.insertAll es

/-- **The keys** of a table are those that were written, each at its first place. -/
theorem keys_ofList (es : List (κ × α)) : (ofList es).keys = (es.map (·.1)).eraseDups := by
  induction es using List.reverseRecOn with
  | nil => rfl
  | append_singleton es e ih =>
    have hmem : e.1 ∈ (ofList es).keys ↔ e.1 ∈ es.map (·.1) := by rw [ih, List.mem_eraseDups]
    rw [ofList_append, keys_insert, List.map_append, List.map_singleton, List.eraseDups_append, ← ih]
    by_cases h : e.1 ∈ es.map (·.1)
    · have hrest : [e.1].removeAll (es.map (·.1)) = [] := by simp [List.removeAll, h]
      rw [if_pos (hmem.2 h), hrest, List.eraseDups_nil, List.append_nil]
    · have hrest : [e.1].removeAll (es.map (·.1)) = [e.1] := by simp [List.removeAll, h]
      have hone : [e.1].eraseDups = [e.1] := by
        rw [List.eraseDups_cons, List.filter_nil, List.eraseDups_nil]
      rw [if_neg (fun hk => h (hmem.1 hk)), hrest, hone]

/-- **What a key holds** is what was written to it last. -/
theorem find?_ofList (es : List (κ × α)) (k : κ) :
    (ofList es).find? k = (es.reverse.find? (·.1 == k)).map (·.2) := by
  induction es using List.reverseRecOn with
  | nil => rfl
  | append_singleton es e ih =>
    rw [ofList_append, find?_insert, ih, List.reverse_concat, List.find?_cons]
    cases e.1 == k <;> rfl

/-- In a table whose keys are there once, the entry of a key is what is found under it. -/
theorem Distinct.mem_entries {t : Table κ α} (h : t.Distinct) (k : κ) (a : α) :
    (k, a) ∈ t.entries ↔ t.find? k = some a := by
  refine ⟨fun hmem => ?_, mem_of_find?⟩
  have hk : k ∈ t.keys := List.mem_map_of_mem hmem
  obtain ⟨e, he⟩ : ∃ e, t.entries.find? (·.1 == k) = some e := by
    rw [← Option.isSome_iff_exists, List.find?_isSome]
    exact ⟨(k, a), hmem, beq_self_eq_true k⟩
  have hek : e.1 = k := eq_of_beq (List.find?_some (p := fun x : κ × α => x.1 == k) he)
  have heq : e = (k, a) :=
    List.inj_on_of_nodup_map h (List.mem_of_find?_eq_some he) hmem hek
  unfold find?
  rw [he, heq]
  rfl

/-- **Writes in order** leave each key once, with what was written to it last. -/
theorem lastWrites_ofList (key : β → κ) (value : β → α) (xs : List β) :
    (ofList (xs.map fun x => (key x, value x))).LastWrites key value xs where
  keys := by
    rw [keys_ofList, List.map_map]
    rfl
  mem_entries k a := by
    rw [(distinct_ofList _).mem_entries, find?_ofList, ← List.map_reverse, List.find?_map,
      Option.map_map, Option.map_eq_some_iff]
    constructor
    · rintro ⟨x, hx, rfl⟩
      -- what stands before `x` in the reversed list comes after it in the list
      obtain ⟨hk, after, before, hxs, hafter⟩ := List.find?_eq_some_iff_append.1 hx
      have hlist : xs = before.reverse ++ x :: after.reverse := by
        rw [← List.reverse_reverse xs, hxs]
        simp
      refine ⟨before.reverse, x, after.reverse, hlist, eq_of_beq hk, rfl, ?_⟩
      intro y hy hyk
      have hne := hafter y (List.mem_reverse.1 hy)
      simp [hyk] at hne
    · rintro ⟨before, x, after, rfl, rfl, rfl, hafter⟩
      refine ⟨x, List.find?_eq_some_iff_append.2 ⟨beq_self_eq_true _, after.reverse,
        before.reverse, by simp, ?_⟩, rfl⟩
      intro y hy
      simp [hafter y (List.mem_reverse.1 hy)]

end Table
end Stylesheet
