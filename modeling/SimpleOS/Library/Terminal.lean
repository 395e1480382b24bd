import Mathlib.Logic.Function.Basic

/-!
# A terminal with unboundedly many rows

Output goes down a grid that has no last row.  A row that comes into view has a
blank of its own, and cells that nothing was written to show the blank of their
row.  A window of some height shows the last rows down to the cursor; the rules
below say how the window changes when the terminal moves on.
-/

namespace SimpleOS.Library

/-- The grid with its cursor; nothing is written below the row of the cursor. -/
structure Terminal (Cell : Type) where
  row : Nat
  column : Nat
  blank : Nat → Cell
  written : Nat → Nat → Option Cell
  unwritten : ∀ below column, row < below → written below column = none

namespace Terminal

variable {Cell : Type}

/-- An empty grid. -/
def cleared (blank : Cell) : Terminal Cell where
  row := 0
  column := 0
  blank _ := blank
  written _ _ := none
  unwritten _ _ _ := rfl

/-- What a place of the grid shows. -/
def cell (t : Terminal Cell) (row column : Nat) : Cell :=
  (t.written row column).getD (t.blank row)

/-- The first row in view of a window of the given height. -/
def origin (t : Terminal Cell) (height : Nat) : Nat := t.row - (height - 1)

/-- What the window shows. -/
def window (t : Terminal Cell) (height : Nat) (row column : Nat) : Cell :=
  t.cell (row + t.origin height) column

/-- Go to the start of the row. -/
def carriageReturn (t : Terminal Cell) : Terminal Cell := { t with column := 0 }

/-- Go to the start of the next row; a row that comes into view is blank. -/
def nextRow (t : Terminal Cell) (height : Nat) (blank : Cell) : Terminal Cell where
  row := t.row + 1
  column := 0
  blank := if height ≤ t.row + 1 then Function.update t.blank (t.row + 1) blank else t.blank
  written := t.written
  unwritten below column beyond := t.unwritten below column (Nat.lt_of_succ_lt beyond)

/-- Write a cell under the cursor. -/
def overwrite (t : Terminal Cell) (cell : Cell) : Terminal Cell where
  row := t.row
  column := t.column
  blank := t.blank
  written := Function.update t.written t.row
    (Function.update (t.written t.row) t.column (some cell))
  unwritten below column beyond := by
    rw [Function.update_of_ne (Nat.ne_of_gt beyond)]
    exact t.unwritten below column beyond

/-- Go to a column, or to the next row when the line has no such column. -/
def moveTo (t : Terminal Cell) (height width column : Nat) (blank : Cell) : Terminal Cell :=
  if column < width then { t with column := column } else t.nextRow height blank

/-- Write a cell and step on. -/
def put (t : Terminal Cell) (height width : Nat) (cell blank : Cell) : Terminal Cell :=
  (t.overwrite cell).moveTo height width (t.column + 1) blank

section Window

variable (t : Terminal Cell) {height : Nat}

@[simp] theorem overwrite_origin (cell : Cell) :
    (t.overwrite cell).origin height = t.origin height :=
  rfl

theorem overwrite_cell (cell : Cell) (row column : Nat) :
    (t.overwrite cell).cell row column =
      if row = t.row ∧ column = t.column then cell else t.cell row column := by
  simp only [Terminal.cell, overwrite]
  by_cases sameRow : row = t.row
  · subst sameRow
    by_cases sameColumn : column = t.column
    · simp [sameColumn]
    · simp [sameColumn]
  · simp [sameRow]

/-- The row of the cursor inside the window. -/
theorem row_in_window (positive : 0 < height) :
    min t.row (height - 1) + t.origin height = t.row ∧ min t.row (height - 1) < height := by
  simp only [origin]
  omega

/-- A cell written under the cursor changes the window there only. -/
theorem overwrite_window (cell : Cell) (positive : 0 < height) (row column : Nat) :
    (t.overwrite cell).window height row column =
      if row = min t.row (height - 1) ∧ column = t.column then cell
      else t.window height row column := by
  have place := (t.row_in_window positive).1
  have same : row + t.origin height = t.row ↔ row = min t.row (height - 1) := by omega
  rw [window, overwrite_cell, overwrite_origin]
  simp only [same, window]

/-- While the last row is not reached, the window stays where it is. -/
theorem nextRow_window_above {blank : Cell} (room : t.row + 1 < height) (row column : Nat) :
    (t.nextRow height blank).window height row column = t.window height row column := by
  have here : (t.nextRow height blank).origin height = t.origin height := by
    simp only [origin, nextRow]
    omega
  rw [window, here]
  simp only [window, cell, nextRow, if_neg (Nat.not_le.mpr room)]

/-- On the last row the window moves down by one. -/
theorem nextRow_origin (blank : Cell) (full : height ≤ t.row + 1) (positive : 0 < height) :
    (t.nextRow height blank).origin height = t.origin height + 1 := by
  simp only [origin, nextRow]
  omega

/-- Then its rows move up by one and the last one is blank. -/
theorem nextRow_window_full {blank : Cell} (full : height ≤ t.row + 1) {row : Nat}
    (inside : row < height) (column : Nat) :
    (t.nextRow height blank).window height row column =
      if row = height - 1 then blank else t.window height (row + 1) column := by
  have moved := t.nextRow_origin blank full (Nat.zero_lt_of_lt inside)
  rw [window, moved]
  split
  · next last =>
      have place : row + (t.origin height + 1) = t.row + 1 := by
        simp only [origin]
        omega
      have none := t.unwritten (t.row + 1) column (Nat.lt_succ_self t.row)
      rw [place, cell]
      simp only [nextRow, none, if_pos full, Function.update_self, Option.getD_none]
  · next notLast =>
      have place : row + (t.origin height + 1) = row + 1 + t.origin height := by omega
      have other : row + 1 + t.origin height ≠ t.row + 1 := by
        simp only [origin]
        omega
      rw [place, window, cell, cell]
      simp only [nextRow, if_pos full, Function.update_of_ne other]

end Window

end Terminal

end SimpleOS.Library
