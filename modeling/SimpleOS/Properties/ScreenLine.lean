import SimpleOS.Properties.ScreenSafety

/-!
# The screen as one line of cells

As long as nothing scrolls, the rows of the screen follow each other like one
line: a printed character appends to what stands before the cursor, and a
backspace takes the last cell back, over the start of a row as well.
-/

namespace SimpleOS.Vga

open Library.ByteMemory Library.GuardedRun

/-- The index of the cell under the cursor. -/
def cursor (v : Vga) : Nat := v.row * vgaWidth + v.column

/-- The character of a cell. -/
def cellChar (cell : Cell) : Byte := cell.setWidth 8

/-- The characters from a cell up to the cursor, row by row. -/
def lineFrom (v : Vga) (entry : Nat) : List Byte :=
  (List.range (v.cursor - entry)).map fun offset => cellChar (v.buffer (entry + offset))

/-- A character that takes a cell of its own. -/
def Printed (char : Byte) : Prop := char ≠ 0x0A ∧ char ≠ 0x0D ∧ char ≠ 0x09

instance (char : Byte) : Decidable (Printed char) := inferInstanceAs (Decidable (_ ∧ _ ∧ _))

/-- `vga_putchar` goes to the next row. -/
def Wraps (v : Vga) (char : Byte) : Prop :=
  char = 0x0A ∨ char = 0x09 ∧ vgaWidth ≤ (v.column + 8) / 8 * 8 ∨
    Printed char ∧ vgaWidth ≤ v.column + 1

/-- One round of the loop of `vga_print` calls `vga_scroll`. -/
def CharScrolls (v : Vga) (char : Byte) : Prop :=
  v.ready = true ∧ v.Wraps char ∧ vgaHeight ≤ v.row + 1

instance (v : Vga) (char : Byte) : Decidable (v.Wraps char) :=
  inferInstanceAs (Decidable (_ ∨ _ ∧ _ ∨ _ ∧ _))

instance (v : Vga) (char : Byte) : Decidable (v.CharScrolls char) :=
  inferInstanceAs (Decidable (_ ∧ _ ∧ _))

/-- A call of the driver calls `vga_scroll`. -/
def Scrolls (v : Vga) : Call → Prop
  | .putchar char => v.CharScrolls char
  | .print data =>
      ¬ Along printChar (fun v char => char = 0x08 ∨ ¬ v.CharScrolls char) v
        (data.takeWhile (· ≠ 0))
  | .setColor _ _ => False
  | .printHex value =>
      ¬ Along printChar (fun v char => char = 0x08 ∨ ¬ v.CharScrolls char) v
        ((hexString value).takeWhile (· ≠ 0))
  | .scroll => True
  | .clear => False

instance (v : Vga) : DecidablePred v.Scrolls
  | .putchar _ => inferInstanceAs (Decidable (CharScrolls _ _))
  | .print _ | .printHex _ => inferInstanceAs (Decidable (¬ Along _ _ _ _))
  | .setColor _ _ | .clear => inferInstanceAs (Decidable False)
  | .scroll => inferInstanceAs (Decidable True)

/-- The cells from the entry on hold a line, and the cursor stands behind it. -/
structure Holds (v : Vga) (entry : Nat) (line : List Byte) : Prop where
  safe : v.Safe
  ready : v.ready = true
  reached : entry ≤ v.cursor
  line : v.lineFrom entry = line

theorem cellChar_entry (char color : Byte) : cellChar (vgaEntry char color) = char := by
  unfold cellChar vgaEntry
  ext index bound
  simp

section Rules

variable {v w : Vga} {entry : Nat} {chars : List Byte} {char last : Byte}

theorem cursor_lt (safe : v.Safe) : v.cursor < vgaWidth * vgaHeight :=
  index_lt safe.column safe.row

theorem Holds.cursor_eq (holds : v.Holds entry chars) : v.cursor = entry + chars.length := by
  have length := congrArg List.length holds.line
  have reached := holds.reached
  rw [lineFrom, List.length_map, List.length_range] at length
  omega

/-- A line is held when the cursor stands behind it and its cells have its characters. -/
theorem holds_of_cells (safe : v.Safe) (ready : v.ready = true)
    (behind : v.cursor = entry + chars.length)
    (cells : ∀ offset, offset < chars.length →
      some (cellChar (v.buffer (entry + offset))) = chars[offset]?) : v.Holds entry chars := by
  refine ⟨safe, ready, by omega, List.ext_getElem? fun offset => ?_⟩
  have count : v.cursor - entry = chars.length := by omega
  rw [lineFrom, count, List.getElem?_map]
  by_cases inside : offset < chars.length
  · rw [List.getElem?_range inside, ← cells offset inside]
    rfl
  · have outside := Nat.le_of_not_lt inside
    rw [List.getElem?_eq_none outside, List.getElem?_eq_none (by simpa using outside)]
    rfl

theorem Holds.cell (holds : v.Holds entry chars) {offset : Nat} (inside : offset < chars.length) :
    some (cellChar (v.buffer (entry + offset))) = chars[offset]? := by
  have reached := holds.cursor_eq
  rw [← holds.line, lineFrom, List.getElem?_map,
    List.getElem?_range (by omega : offset < v.cursor - entry)]
  rfl

/-- Writing the cell behind a line and stepping on appends to the line. -/
theorem Holds.append (holds : v.Holds entry chars) (safe : w.Safe) (ready : w.ready = true)
    (moved : w.cursor = v.cursor + 1) (color : Byte)
    (written : w.buffer = Function.update v.buffer v.cursor (vgaEntry char color)) :
    w.Holds entry (chars ++ [char]) := by
  have behind := holds.cursor_eq
  refine holds_of_cells safe ready (by rw [List.length_append]; simp; omega) ?_
  intro offset inside
  rw [List.length_append, List.length_singleton] at inside
  by_cases older : offset < chars.length
  · rw [List.getElem?_append_left older, ← holds.cell older, written,
      Function.update_of_ne (by omega)]
  · have here : offset = chars.length := by omega
    rw [here, List.getElem?_append_right (Nat.le_refl _), Nat.sub_self, ← behind, written,
      Function.update_self, cellChar_entry]
    rfl

/-- Stepping back and blanking the cell there drops the last character of the line. -/
theorem Holds.dropLast (holds : v.Holds entry (chars ++ [last])) (safe : w.Safe)
    (ready : w.ready = true) (moved : w.cursor + 1 = v.cursor) (cell : Cell)
    (written : w.buffer = Function.update v.buffer w.cursor cell) : w.Holds entry chars := by
  have behind := holds.cursor_eq
  rw [List.length_append, List.length_singleton] at behind
  refine holds_of_cells safe ready (by omega) ?_
  intro offset inside
  have inLine : offset < (chars ++ [last]).length := by
    rw [List.length_append]
    omega
  have kept := holds.cell inLine
  rw [List.getElem?_append_left inside] at kept
  rw [← kept, written, Function.update_of_ne (by omega)]

end Rules

/-! ## The calls of the line editor -/

section Calls

variable {v : Vga} {entry : Nat} {chars : List Byte} {char last : Byte}

/-- A printed character that does not scroll. -/
theorem Holds.putchar (holds : v.Holds entry chars) (printed : Printed char)
    (stays : ¬ v.CharScrolls char) : (v.putchar char).Holds entry (chars ++ [char]) := by
  obtain ⟨newline, carriage, tab⟩ := printed
  have safe := holds.safe
  have ready := holds.ready
  have column := safe.column
  have nextSafe := putchar_safe safe char
  have started : ¬ v.ready = false := by
    rw [ready]
    decide
  have shape : v.putchar char =
      if v.column + 1 ≥ vgaWidth then
        nextRow { v.putentryat char v.color v.column v.row with column := v.column + 1 }
      else { v.putentryat char v.color v.column v.row with column := v.column + 1 } := by
    rw [Vga.putchar, if_neg started, if_neg newline, if_neg carriage, if_neg tab]
    rfl
  rw [shape] at nextSafe ⊢
  split at nextSafe
  · next wraps =>
    have room : ¬ v.row + 1 ≥ vgaHeight := fun full =>
      stays ⟨ready, .inr (.inr ⟨⟨newline, carriage, tab⟩, wraps⟩), full⟩
    rw [if_pos wraps]
    have moved : nextRow { v.putentryat char v.color v.column v.row with column := v.column + 1 } =
        { v.putentryat char v.color v.column v.row with row := v.row + 1, column := 0 } := by
      rw [nextRow]
      exact if_neg room
    rw [moved] at nextSafe ⊢
    refine holds.append nextSafe ready ?_ v.color rfl
    simp only [cursor, vgaWidth] at *
    omega
  · next fits =>
    rw [if_neg fits]
    exact holds.append nextSafe ready (Nat.add_assoc _ _ _).symm v.color rfl

/-- `vga_print("\b")`. -/
theorem Holds.back (holds : v.Holds entry (chars ++ [last])) :
    (v.print [0x08]).Holds entry chars := by
  have safe := print_safe holds.safe [0x08]
  have behind := holds.cursor_eq
  rw [List.length_append, List.length_singleton] at behind
  have printed : v.print [0x08] = v.printChar 0x08 := rfl
  rw [printed] at safe ⊢
  unfold printChar at safe ⊢
  rw [if_pos rfl] at safe ⊢
  by_cases inRow : v.column > 0
  · rw [if_pos inRow] at safe ⊢
    refine holds.dropLast safe holds.ready ?_ _ rfl
    change v.row * vgaWidth + (v.column - 1) + 1 = v.row * vgaWidth + v.column
    omega
  · rw [if_neg inRow] at safe ⊢
    by_cases below : v.row > 0
    · rw [if_pos below] at safe ⊢
      refine holds.dropLast safe holds.ready ?_ _ rfl
      change (v.row - 1) * vgaWidth + (vgaWidth - 1) + 1 = v.row * vgaWidth + v.column
      simp only [vgaWidth]
      omega
    · simp only [cursor] at behind
      have atStart : v.row * vgaWidth + v.column = 0 := by
        rw [Nat.eq_zero_of_not_pos inRow, Nat.eq_zero_of_not_pos below, Nat.zero_mul]
      omega

/-- `vga_print("\b ")`; the blank stands where the character was, so it cannot scroll. -/
theorem Holds.blank (holds : v.Holds entry (chars ++ [last])) :
    (v.print [0x08, 0x20]).Holds entry (chars ++ [0x20]) := by
  have back := holds.back
  have before := back.cursor_eq
  have behind := holds.cursor_eq
  have inside := cursor_lt holds.safe
  rw [List.length_append, List.length_singleton] at behind
  have printed : v.print [0x08, 0x20] = (v.print [0x08]).putchar 0x20 := rfl
  rw [printed]
  refine back.putchar (by decide) ?_
  rintro ⟨_, wraps, full⟩
  have lastColumn : vgaWidth ≤ (v.print [0x08]).column + 1 := by
    rcases wraps with newline | ⟨tab, _⟩ | ⟨_, wide⟩
    · cases newline
    · cases tab
    · exact wide
  rw [cursor] at before
  simp only [vgaWidth, vgaHeight] at *
  omega

theorem Holds.setColor (holds : v.Holds entry chars) (foreground background : Byte) :
    (v.setColor foreground background).Holds entry chars :=
  ⟨⟨holds.safe.row, holds.safe.column, holds.safe.accesses⟩, holds.ready, holds.reached, holds.line⟩

end Calls

/-! ## The screen stays ready -/

section Ready

variable (v : Vga)

theorem nextRow_ready : v.nextRow.ready = v.ready := by
  unfold nextRow
  dsimp only
  split
  · exact ready_of_settings (scroll_settings _)
  · rfl

theorem putchar_ready (char : Byte) : (v.putchar char).ready = v.ready := by
  unfold putchar
  dsimp only
  split
  · rfl
  · split
    · exact v.nextRow_ready
    · split
      · rfl
      · split
        · split
          · exact nextRow_ready _
          · rfl
        · split
          · exact nextRow_ready _
          · rfl

theorem printChar_ready (char : Byte) : (v.printChar char).ready = v.ready := by
  unfold printChar
  dsimp only
  split
  · split
    · rfl
    · split <;> rfl
  · exact v.putchar_ready char

theorem print_ready (data : CString) : (v.print data).ready = v.ready := by
  unfold print
  generalize data.takeWhile (· ≠ 0) = chars
  induction chars generalizing v with
  | nil => rfl
  | cons char rest ih => exact (ih (v.printChar char)).trans (v.printChar_ready char)

/-- No call of the driver takes the screen away. -/
theorem step_ready (call : Call) : (v.step call).ready = v.ready := by
  cases call with
  | putchar char => exact v.putchar_ready char
  | print data => exact v.print_ready data
  | setColor foreground background => rfl
  | printHex value => exact v.print_ready _
  | scroll => exact ready_of_settings v.scroll_settings
  | clear => exact ready_of_settings v.clear_settings

end Ready

end SimpleOS.Vga
