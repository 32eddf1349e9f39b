import Stylesheet.Import.Lookup

/-!
# Files and their paths

Several paths may lead to one file. The names by which a file is known tell it apart from every
other file; a path leads to these names through its components.

* `Files.place?`: the file that a path leads to.
* `Files.place?_eq_of_beq`: paths with the same components lead to the same file.
* `resolve_isFile`: what a request is answered with is a file.
-/

namespace Stylesheet
namespace Files

/-- The file that a path leads to, by the names of the directories above it and its own. -/
def place? (fs : Files) (p : Path) : Option (List (List Char)) :=
  match fs.find p with
  | .ok (.file names _) => some names
  | _ => none

/-- Where a component leads from a directory. -/
def descend (names : List (List Char)) : Path.Component → List (List Char)
  | .name s => names ++ [s]
  | .up => names.dropLast
  | .root | .here => names

variable {fs : Files}

theorem lookup?_file {names names' : List (List Char)} {bytes : ByteArray}
    (h : fs.lookup? names = some (.file names' bytes)) :
    names' = names ∧ fs.entries.lookup names = some bytes := by
  unfold lookup? at h
  split at h
  · next hb =>
    cases h
    exact ⟨rfl, hb⟩
  · split at h <;> cases h

/-- Nothing outside is a file. -/
theorem outside_foldlM {ss : List (List Char)} {names : List (List Char)} {bytes : ByteArray} :
    ss.foldlM fs.step .outside ≠ .ok (.file names bytes) := by
  induction ss with
  | nil => exact nofun
  | cons s ss ih =>
    intro h
    rw [List.foldlM_cons, step] at h
    split at h
    · exact ih h
    · cases h

/-- A file is known by the names to which the segments of a path to it lead. -/
theorem file_of_foldlM {ss : List (List Char)} {here names : List (List Char)} {bytes : ByteArray}
    (h : ss.foldlM fs.step (.directory here) = .ok (.file names bytes)) :
    names = (ss.filterMap (Path.component? false)).foldl descend here ∧
      fs.entries.lookup names = some bytes := by
  induction ss generalizing here with
  | nil => cases h
  | cons s ss ih =>
    rw [List.foldlM_cons, step] at h
    split at h
    · next hs =>
      rw [Bool.or_eq_true, decide_eq_true_eq, decide_eq_true_eq] at hs
      have hc : Path.component? false s = none := by
        rcases hs with rfl | rfl <;> rfl
      rw [List.filterMap_cons_none hc]
      exact ih h
    · next hs =>
      split at h
      · next hup =>
        subst hup
        split at h
        · exact absurd h outside_foldlM
        · exact ih h
      · next hup =>
        have hc : Path.component? false s = some (.name s) := by
          rw [Bool.or_eq_true, decide_eq_true_eq, decide_eq_true_eq, not_or] at hs
          unfold Path.component?
          rw [if_neg hs.1, if_neg hs.2, if_neg hup]
        rw [List.filterMap_cons_some hc]
        cases hf : fs.lookup? (here ++ [s]) with
        | none =>
          rw [hf] at h
          cases h
        | some found =>
          rw [hf] at h
          cases found with
          | directory names' =>
            have : names' = here ++ [s] := by
              unfold lookup? at hf
              split at hf
              · cases hf
              · split at hf
                · cases hf
                  rfl
                · cases hf
            rw [this] at h
            exact ih h
          | outside =>
            exact absurd h outside_foldlM
          | file names' bytes' =>
            -- behind a file nothing may follow
            cases ss with
            | nil =>
              cases h
              obtain ⟨rfl, hb⟩ := lookup?_file hf
              exact ⟨rfl, hb⟩
            | cons _ _ => cases h

/-- **The file of a path** has the names to which its components lead. -/
theorem place?_eq_some {p : Path} {names : List (List Char)} (h : fs.place? p = some names) :
    names = p.components.foldl descend [] ∧ ∃ bytes, fs.find p = .ok (.file names bytes) ∧
      fs.entries.lookup names = some bytes := by
  unfold place? at h
  split at h
  · next names' bytes hf =>
    cases h
    have hfound := hf
    unfold find at hf
    split at hf
    · cases hf
    · cases ha : p.isAbsolute with
      | true =>
        rw [ha] at hf
        exact absurd hf outside_foldlM
      | false =>
        rw [ha] at hf
        obtain ⟨hn, hb⟩ := file_of_foldlM hf
        refine ⟨?_, bytes, hfound, hb⟩
        rw [hn, Path.components, ha]
        cases p.body with
        | nil => rfl
        | cons s ss =>
          -- a dot in front leads nowhere
          by_cases hs : s = ['.']
          · subst hs
            rfl
          · have hc : Path.component? true s = Path.component? false s := by
              unfold Path.component?
              rw [if_neg hs, if_neg hs]
            dsimp only
            rw [hc, List.filterMap_cons]
            cases Path.component? false s <;> rfl
  · cases h

/-- Paths with the same components lead to the same file. -/
theorem place?_eq_of_beq {p q : Path} {a b : List (List Char)} (ha : fs.place? p = some a)
    (hb : fs.place? q = some b) (h : (p == q) = true) : a = b := by
  have hc : p.components = q.components := eq_of_beq (α := List Path.Component) h
  rw [(place?_eq_some ha).1, (place?_eq_some hb).1, hc]

theorem isFile_iff {p : Path} : fs.isFile p = true ↔ (fs.place? p).isSome = true := by
  unfold isFile place?
  cases fs.find p with
  | error e => simp
  | ok found => cases found <;> simp

end Files

namespace Import

variable {σ : Type} [Log.Sink σ] {files : Files}

theorem firstFile_isFile {isFile : Path → Bool} {paths : List Path} {s s' : σ} {p : Path}
    (h : firstFile isFile paths s = (some p, s')) : isFile p = true := by
  induction paths generalizing s with
  | nil => cases h
  | cons q paths ih =>
    unfold firstFile at h
    by_cases hq : isFile q = true
    · simp only [hq, if_true] at h
      cases h
      exact hq
    · simp only [hq] at h
      exact ih h

/-- **What a request is answered with** is a file. -/
theorem resolve_isFile {loadPaths : List Path} {dir : Path} {request : String} {s s' : σ} {p : Path}
    (h : resolve files loadPaths dir request s = (.ok p, s')) : files.isFile p = true := by
  rcases hf : firstFile files.isFile (candidates loadPaths dir request) s with ⟨found, t⟩
  unfold resolve resolveWhere at h
  dsimp only [bind, StateT.bind] at h
  rw [hf] at h
  cases found with
  | none => cases h
  | some q =>
    cases h
    exact firstFile_isFile hf

end Import
end Stylesheet
