import Mathlib.Data.List.Basic

/-!
# Text on a line with tab stops

A character takes the column it is written at and steps on to the next one; a
tab takes none and goes on to the next multiple of some width.
-/

namespace SimpleOS.Library.TabStops

variable {Char : Type} [DecidableEq Char] (tab : Char) (width : Nat)

/-- The column behind a character. -/
def advance (column : Nat) (char : Char) : Nat :=
  if char = tab then width * (column / width + 1) else column + 1

/-- The column behind a text. -/
def behind (column : Nat) (text : List Char) : Nat := text.foldl (advance tab width) column

/-- The characters that take a column, with their columns. -/
def placed : Nat → List Char → List (Nat × Char)
  | _, [] => []
  | column, char :: rest =>
      (if char = tab then [] else [(column, char)]) ++
        placed (advance tab width column char) rest

section Rules

variable {tab} {width} {column : Nat} {text : List Char}

theorem behind_cons (column : Nat) (char : Char) (rest : List Char) :
    behind tab width column (char :: rest) =
      behind tab width (advance tab width column char) rest := rfl

theorem behind_append (column : Nat) (first second : List Char) :
    behind tab width column (first ++ second) =
      behind tab width (behind tab width column first) second := List.foldl_append

theorem placed_append (column : Nat) (first second : List Char) :
    placed tab width column (first ++ second) =
      placed tab width column first ++ placed tab width (behind tab width column first) second := by
  induction first generalizing column with
  | nil => rfl
  | cons char rest ih =>
      rw [List.cons_append, placed, placed, ih, behind_cons, List.append_assoc]

/-- Every character goes forward. -/
theorem lt_advance (positive : 0 < width) (column : Nat) (char : Char) :
    column < advance tab width column char := by
  unfold advance
  split
  · have next := Nat.lt_mul_div_succ column positive
    rwa [Nat.mul_comm] at next ⊢
  · exact Nat.lt_succ_self column

theorem le_behind (positive : 0 < width) (column : Nat) (text : List Char) :
    column ≤ behind tab width column text := by
  induction text generalizing column with
  | nil => exact Nat.le_refl column
  | cons char rest ih => exact Nat.le_trans (Nat.le_of_lt (lt_advance positive column char)) (ih _)

/-- The columns taken lie between the start and the end. -/
theorem placed_bounds (positive : 0 < width) {place : Nat × Char}
    (member : place ∈ placed tab width column text) :
    column ≤ place.1 ∧ place.1 < behind tab width column text := by
  induction text generalizing column with
  | nil => cases member
  | cons char rest ih =>
      have forward : column < advance tab width column char := lt_advance positive column char
      rcases List.mem_append.mp member with here | later
      · split at here
        · cases here
        · rw [List.mem_singleton.mp here]
          exact ⟨Nat.le_refl column, Nat.lt_of_lt_of_le forward (le_behind positive _ rest)⟩
      · obtain ⟨lower, upper⟩ := ih later
        exact ⟨Nat.le_trans (Nat.le_of_lt forward) lower, upper⟩

/-- Without a tab the columns follow each other. -/
theorem behind_plain (plain : tab ∉ text) (column : Nat) :
    behind tab width column text = column + text.length := by
  induction text generalizing column with
  | nil => rfl
  | cons char rest ih =>
      have other : char ≠ tab := fun same => plain (same ▸ List.mem_cons_self)
      rw [behind_cons, ih (fun inside => plain (List.mem_cons_of_mem char inside)), advance,
        if_neg other, List.length_cons]
      omega

theorem placed_plain (plain : tab ∉ text) (column : Nat) {index : Nat}
    (inside : index < text.length) :
    (column + index, text[index]) ∈ placed tab width column text := by
  induction text generalizing column index with
  | nil => cases inside
  | cons char rest ih =>
      have other : char ≠ tab := fun same => plain (same ▸ List.mem_cons_self)
      rw [placed, if_neg other]
      cases index with
      | zero => exact List.mem_append_left _ List.mem_cons_self
      | succ index =>
          have later := ih (fun inside => plain (List.mem_cons_of_mem char inside)) (column + 1)
            (Nat.lt_of_succ_lt_succ inside)
          rw [Nat.add_assoc, Nat.add_comm 1] at later
          rw [advance, if_neg other]
          exact List.mem_append_right _ later

/-- A field of a line starts at the column that what stands before it leads to. -/
theorem placed_field {start : Nat} {before field after : List Char}
    (reached : behind tab width start before = column) (plain : tab ∉ field) {index : Nat}
    (inside : index < field.length) :
    (column + index, field[index]) ∈ placed tab width start (before ++ (field ++ after)) := by
  rw [placed_append, placed_append, reached]
  exact List.mem_append_right _ (List.mem_append_left _ (placed_plain plain column inside))

end Rules

end SimpleOS.Library.TabStops
