import Mathlib.Data.List.Find
import Stylesheet.Extract.Basic
import Stylesheet.Proofs.Table.LastWrites

/-!
# Two views of what was exported

The exported variables are asked for by name from the end of the list, or are all written to a
table in order. The name of a variable is a value, and the table has its text: names that are no
strings are in the table and are not found by name.

* `lastValue_eq_find?`: a variable has the same value in both views, as long as every name that has
  the text is that string.
* `views`: the table in full, and the agreement.
-/

namespace Stylesheet
namespace Extraction

/-- A name is the string `n` if and only if it has that text, as long as only strings have it. -/
theorem string?_beq_eq {name : Plain} {n : String} (h : name.keyText = n → name = .string n) :
    (name.string? == some n) = (name.keyText == n) := by
  by_cases hn : name.keyText = n
  · rw [h hn]
    simp [Plain.string?, Plain.keyText]
  · have hstring : name.string? ≠ some n := by
      intro hs
      cases name with
      | string t =>
        -- the text of a string is the string itself
        rw [Plain.string?, Option.some.injEq] at hs
        rw [Plain.keyText] at hn
        exact hn hs
      | _ => cases hs
    rw [beq_eq_false_iff_ne.2 hn, beq_eq_false_iff_ne.2 hstring]

/-- **What is found by name** is what the table holds. -/
theorem lastValue_eq_find? (e : Extraction) (n : String)
    (h : ∀ x ∈ e.exported, x.name.keyText = n → x.name = .string n) :
    e.lastValue n = (e.toTable.find? n).getD .undefined := by
  have hsame : e.exported.reverse.find? (·.name.string? == some n) =
      e.exported.reverse.find? (·.name.keyText == n) :=
    List.find?_congr fun x hx => string?_beq_eq (h x (List.mem_reverse.1 hx))
  unfold lastValue toTable
  rw [hsame, Table.find?_ofList, ← List.map_reverse, List.find?_map]
  simp only [Function.comp_def]
  cases e.exported.reverse.find? (·.name.keyText == n) <;> rfl

/-- **The two views of an extraction agree.** The table has the texts of the names in the order in
which they first came, each with the value of the last variable that has it, be it undefined. A
name that only strings have as their text has the same value in both views; one that is not there
counts as undefined. -/
theorem views (e : Extraction) :
    e.toTable.LastWrites (·.name.keyText) (·.value) e.exported ∧
      ∀ n, (∀ x ∈ e.exported, x.name.keyText = n → x.name = .string n) →
        e.lastValue n = (e.toTable.find? n).getD .undefined :=
  ⟨Table.lastWrites_ofList _ _ e.exported, e.lastValue_eq_find?⟩

/-- A variable that is exported twice has its last value in both views and its first place in the
table. One whose last value is undefined is in the table and reads as undefined. A name that is no
string is in the table only. -/
theorem views_repeated :
    let e : Extraction := ⟨[⟨.string "a", .number 1⟩, ⟨.null, .bool true⟩, ⟨.string "b", .null⟩,
      ⟨.string "a", .bool false⟩, ⟨.string "b", .undefined⟩], []⟩
    e.toTable.entries = [("a", .bool false), ("null", .bool true), ("b", .undefined)] ∧
      e.lastValue "a" = (e.toTable.find? "a").getD .undefined ∧
      e.lastValue "b" = (e.toTable.find? "b").getD .undefined ∧
      e.lastValue "null" = .undefined := by
  intro e
  have ha : ∀ x ∈ e.exported, x.name.keyText = "a" → x.name = .string "a" := by
    simp [e, Plain.keyText]
  have hb : ∀ x ∈ e.exported, x.name.keyText = "b" → x.name = .string "b" := by
    simp [e, Plain.keyText]
  exact ⟨rfl, (views e).2 "a" ha, (views e).2 "b" hb, rfl⟩

end Extraction
end Stylesheet
