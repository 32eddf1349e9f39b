/-!
# Tables

A table holds values under keys. A key that is set again keeps its place.

* `find?_insert`: a key that is set holds the new value, and the others hold what they held.
* `keys_insert`: setting a key adds at most that key.
* `find?_insertAll`: keys that are set once hold what they were set to.
-/

namespace Stylesheet

/-- Values under keys, in the order in which the keys came. -/
structure Table (κ α : Type) where
  entries : List (κ × α)

namespace Table

variable {κ α : Type} [BEq κ]

def empty : Table κ α := ⟨[]⟩

instance : Inhabited (Table κ α) := ⟨empty⟩

/-- The value under a key. -/
def find? (t : Table κ α) (k : κ) : Option α := (t.entries.find? (·.1 == k)).map (·.2)

def contains (t : Table κ α) (k : κ) : Bool := t.entries.any (·.1 == k)

/-- Set a key in a list of entries. -/
def put (k : κ) (a : α) : List (κ × α) → List (κ × α)
  | [] => [(k, a)]
  | e :: es => if e.1 == k then (e.1, a) :: es else e :: put k a es

/-- Set a key. -/
def insert (t : Table κ α) (k : κ) (a : α) : Table κ α := ⟨put k a t.entries⟩

/-- Set keys one after the other. -/
def insertAll (t : Table κ α) (es : List (κ × α)) : Table κ α :=
  es.foldl (fun t e => t.insert e.1 e.2) t

def ofList (es : List (κ × α)) : Table κ α := insertAll empty es

def keys (t : Table κ α) : List κ := t.entries.map (·.1)

def size (t : Table κ α) : Nat := t.entries.length

/-- Every key is there once. -/
def Distinct (t : Table κ α) : Prop := t.keys.Nodup

section

variable [EquivBEq κ]

theorem find?_put (k l : κ) (a : α) (es : List (κ × α)) :
    ((put k a es).find? (·.1 == l)).map (·.2) =
      if k == l then some a else (es.find? (·.1 == l)).map (·.2) := by
  induction es with
  | nil => cases h : k == l <;> simp [put, h]
  | cons e es ih =>
    cases he : e.1 == k with
    | true =>
      -- equal keys are equal to the same keys
      have hl : (e.1 == l) = (k == l) := BEq.congr_left he
      cases h : k == l <;> simp [put, he, hl, h]
    | false =>
      cases h : k == l with
      | true =>
        have hl : (e.1 == l) = false := by rw [← BEq.congr_right h, he]
        rw [h] at ih
        simp [put, he, hl, ih]
      | false =>
        rw [h] at ih
        cases hl : e.1 == l <;> simp [put, he, hl, ih]

/-- **Setting a key** changes what it holds and nothing else. -/
theorem find?_insert (t : Table κ α) (k l : κ) (a : α) :
    (t.insert k a).find? l = if k == l then some a else t.find? l :=
  find?_put k l a t.entries

/-- Equal keys hold the same. -/
theorem find?_congr (t : Table κ α) {k l : κ} (h : (k == l) = true) : t.find? k = t.find? l := by
  have heq : (fun e : κ × α => e.1 == k) = fun e => e.1 == l := funext fun e => BEq.congr_right h
  unfold find?
  rw [heq]

end

variable [LawfulBEq κ]

theorem keys_put (k : κ) (a : α) (es : List (κ × α)) :
    (put k a es).map (·.1) =
      if k ∈ es.map (·.1) then es.map (·.1) else es.map (·.1) ++ [k] := by
  induction es with
  | nil => simp [put]
  | cons e es ih =>
    by_cases he : e.1 = k
    · simp [put, he]
    · have he' : ¬ k = e.1 := fun h => he h.symm
      simp only [put, beq_iff_eq, he, if_false, List.map_cons, ih, List.mem_cons, he', false_or]
      split <;> rfl

theorem keys_insert (t : Table κ α) (k : κ) (a : α) :
    (t.insert k a).keys = if k ∈ t.keys then t.keys else t.keys ++ [k] :=
  keys_put k a t.entries

/-! ### Keys that are there once -/

omit [BEq κ] [LawfulBEq κ] in
theorem distinct_empty : (empty : Table κ α).Distinct := .nil

theorem Distinct.insert {t : Table κ α} (h : t.Distinct) (k : κ) (a : α) :
    (t.insert k a).Distinct := by
  unfold Distinct
  rw [keys_insert]
  split
  · exact h
  · next hk =>
    rw [List.nodup_append]
    refine ⟨h, List.pairwise_singleton _ k, ?_⟩
    intro l hl k' hk' hlk
    rw [List.mem_singleton] at hk'
    rw [hk'] at hlk
    exact hk (hlk ▸ hl)

theorem Distinct.insertAll {t : Table κ α} (h : t.Distinct) (es : List (κ × α)) :
    (t.insertAll es).Distinct := by
  unfold Table.insertAll
  induction es generalizing t with
  | nil => exact h
  | cons e es ih => exact ih (h.insert e.1 e.2)

theorem mem_of_find? {t : Table κ α} {k : κ} {a : α} (h : t.find? k = some a) :
    (k, a) ∈ t.entries := by
  unfold find? at h
  obtain ⟨e, he, rfl⟩ := Option.map_eq_some_iff.1 h
  have hk : (e.1 == k) = true := List.find?_some (p := fun x : κ × α => x.1 == k) he
  rw [← eq_of_beq hk]
  exact List.mem_of_find?_eq_some he

/-- A key that is not set holds what it held. -/
theorem find?_insertAll_of_notMem (t : Table κ α) {es : List (κ × α)} {k : κ}
    (h : k ∉ es.map (·.1)) : (t.insertAll es).find? k = t.find? k := by
  induction es generalizing t with
  | nil => rfl
  | cons e es ih =>
    rw [List.map_cons, List.mem_cons, not_or] at h
    have hne : (e.1 == k) = false := beq_eq_false_iff_ne.2 fun he => h.1 he.symm
    have hrest : (t.insertAll (e :: es)).find? k = (t.insert e.1 e.2).find? k := ih _ h.2
    rw [hrest, find?_insert, hne]
    rfl

/-- **Keys that are set once** hold what they were set to. -/
theorem find?_insertAll (t : Table κ α) {es : List (κ × α)} (hes : (es.map (·.1)).Nodup) {k : κ}
    {a : α} (h : (k, a) ∈ es) : (t.insertAll es).find? k = some a := by
  induction es generalizing t with
  | nil => cases h
  | cons e es ih =>
    rw [List.map_cons, List.nodup_cons] at hes
    rcases List.mem_cons.1 h with rfl | h
    · have hrest : (t.insertAll ((k, a) :: es)).find? k = (t.insert k a).find? k :=
        find?_insertAll_of_notMem _ hes.1
      rw [hrest, find?_insert, beq_self_eq_true]
      rfl
    · exact ih (t.insert e.1 e.2) hes.2 h

end Table
end Stylesheet
