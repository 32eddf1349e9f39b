/-!
# Names

In names of variables, functions and namespaces a dash and an underscore are the same character.
A `Name` is a name with all underscores made dashes, so that two spellings of a name are one
`Name`.

* `ofString_eq_iff`: two spellings are one name exactly when they differ in nothing else.
-/

namespace Stylesheet

/-- The dash for an underscore, any other character as it is. -/
def dash (c : Char) : Char := if c = '_' then '-' else c

theorem dash_ne_underscore (c : Char) : dash c ≠ '_' := by
  unfold dash
  split <;> simp_all

/-- A name without underscores. -/
structure Name where
  text : String
  dashed : ∀ c ∈ text.toList, c ≠ '_'

namespace Name

@[ext] theorem ext {m n : Name} (h : m.text = n.text) : m = n := by
  cases m; cases n; cases h; rfl

instance : DecidableEq Name := fun m n =>
  if h : m.text = n.text then isTrue (ext h) else isFalse fun e => h (e ▸ rfl)

/-- The name with a given spelling. -/
def ofString (s : String) : Name where
  text := String.ofList (s.toList.map dash)
  dashed := by
    simp only [String.toList_ofList, List.mem_map]
    rintro c ⟨d, _, rfl⟩
    exact dash_ne_underscore d

/-- **One name, many spellings.** -/
theorem ofString_eq_iff (s t : String) :
    ofString s = ofString t ↔ s.toList.map dash = t.toList.map dash := by
  constructor
  · intro h
    simpa [ofString] using congrArg (fun n => n.text.toList) h
  · intro h
    simp [ofString, h]

/-- A name with another in front. -/
def append (m n : Name) : Name where
  text := m.text ++ n.text
  dashed := by
    intro c hc
    rw [String.toList_append, List.mem_append] at hc
    exact hc.elim (m.dashed c) (n.dashed c)

instance : Append Name := ⟨append⟩

theorem append_assoc (l m n : Name) : l ++ m ++ n = l ++ (m ++ n) := by
  have htext : l.text ++ m.text ++ n.text = l.text ++ (m.text ++ n.text) := String.append_assoc
  exact ext htext

/-- Names behind the same front are the same if the whole names are. -/
theorem append_left_cancel {l m n : Name} (h : l ++ m = l ++ n) : m = n := by
  have htext : l.text ++ m.text = l.text ++ n.text := congrArg Name.text h
  have hlist : l.text.toList ++ m.text.toList = l.text.toList ++ n.text.toList := by
    rw [← String.toList_append, ← String.toList_append, htext]
  exact ext (String.toList_injective (List.append_cancel_left hlist))

end Name
end Stylesheet
