import Mathlib.Logic.Function.Basic
import SimpleOS.Kernel.Record

/-!
# The text screen

`vga.c`: the cursor, the colour and the 80 by 25 buffer, with the loops of
`vga_scroll` and `vga_clear` as they run.  Beside its variables the state holds
the indices into `vga_buffer` that have been read or written.
-/

namespace SimpleOS

open Library.ByteMemory

/-- A character with its colour, as the screen memory holds it. -/
abbrev Cell := BitVec 16

def vgaWidth : Nat := 80
def vgaHeight : Nat := 25

theorem vgaWidth_pos : 0 < vgaWidth := by decide
theorem vgaHeight_pos : 0 < vgaHeight := by decide

def vgaColorBlack : Byte := 0
def vgaColorLightGrey : Byte := 7
def vgaColorLightGreen : Byte := 10
def vgaColorLightCyan : Byte := 11
def vgaColorLightRed : Byte := 12
def vgaColorLightBrown : Byte := 14
def vgaColorWhite : Byte := 15

/-- `vga_entry_color`. -/
def vgaEntryColor (foreground background : Byte) : Byte := foreground ||| (background <<< 4)

/-- `vga_entry`. -/
def vgaEntry (char color : Byte) : Cell := char.setWidth 16 ||| (color.setWidth 16 <<< 8)

/-- The variables of `vga.c`; `ready` says that `vga_buffer` is not NULL. -/
structure Vga where
  row : Nat
  column : Nat
  color : Byte
  ready : Bool
  buffer : Nat → Cell
  /-- The indices used so far, the latest first. -/
  accesses : List Nat

namespace Vga

/-- `vga_buffer[index] = cell`. -/
def write (v : Vga) (index : Nat) (cell : Cell) : Vga :=
  { v with buffer := Function.update v.buffer index cell, accesses := index :: v.accesses }

/-- `vga_init`, with what the screen memory holds before. -/
def init (memory : Nat → Cell) : Vga :=
  let color := vgaEntryColor vgaColorLightGrey vgaColorBlack
  Vga.write { row := 0, column := 0, color, ready := true, buffer := memory, accesses := [] }
    0 (vgaEntry 0x54 color)

/-- `vga_set_color`. -/
def setColor (v : Vga) (foreground background : Byte) : Vga :=
  { v with color := vgaEntryColor foreground background }

/-- `vga_putentryat`. -/
def putentryat (v : Vga) (char color : Byte) (x y : Nat) : Vga :=
  v.write (y * vgaWidth + x) (vgaEntry char color)

/-- `vga_buffer[y * VGA_WIDTH + x] = vga_buffer[(y + 1) * VGA_WIDTH + x]`. -/
def copyUp (v : Vga) (y x : Nat) : Vga :=
  Vga.write { v with accesses := ((y + 1) * vgaWidth + x) :: v.accesses } (y * vgaWidth + x)
    (v.buffer ((y + 1) * vgaWidth + x))

/-- The inner loop of `vga_scroll`. -/
def copyRow (v : Vga) (y : Nat) : Vga :=
  (List.range vgaWidth).foldl (fun v x => v.copyUp y x) v

/-- The loop of `vga_scroll` that blanks the last line. -/
def clearLastRow (v : Vga) : Vga :=
  (List.range vgaWidth).foldl (fun v x => v.putentryat 0x20 v.color x (vgaHeight - 1)) v

/-- `vga_scroll`. -/
def scroll (v : Vga) : Vga :=
  let v := (List.range (vgaHeight - 1)).foldl copyRow v
  let v := v.clearLastRow
  { v with row := vgaHeight - 1, column := 0 }

/-- `vga_column = 0; if (++vga_row >= VGA_HEIGHT) ...`, as three places of `vga_putchar` have it. -/
def nextRow (v : Vga) : Vga :=
  let v := { v with row := v.row + 1, column := 0 }
  if v.row ≥ vgaHeight then scroll { v with row := vgaHeight - 1 } else v

/-- `vga_putchar`; the mask `~(8 - 1)` rounds down to a multiple of 8. -/
def putchar (v : Vga) (char : Byte) : Vga :=
  if v.ready = false then v
  else if char = 0x0A then v.nextRow
  else if char = 0x0D then { v with column := 0 }
  else if char = 0x09 then
    let v := { v with column := (v.column + 8) / 8 * 8 }
    if v.column ≥ vgaWidth then v.nextRow else v
  else
    let v := v.putentryat char v.color v.column v.row
    let v := { v with column := v.column + 1 }
    if v.column ≥ vgaWidth then v.nextRow else v

/-- One round of the loop of `vga_print`. -/
def printChar (v : Vga) (char : Byte) : Vga :=
  if char = 0x08 then
    if v.column > 0 then
      let v := { v with column := v.column - 1 }
      v.putentryat 0x20 v.color v.column v.row
    else if v.row > 0 then
      let v := { v with row := v.row - 1, column := vgaWidth - 1 }
      v.putentryat 0x20 v.color v.column v.row
    else v
  else v.putchar char

/-- `vga_print`: the loop stops at the NUL of the string. -/
def print (v : Vga) (data : CString) : Vga :=
  (data.takeWhile (· ≠ 0)).foldl printChar v

/-- One row of the loops of `vga_clear`. -/
def clearRow (v : Vga) (y : Nat) : Vga :=
  (List.range vgaWidth).foldl (fun v x => v.write (y * vgaWidth + x) (vgaEntry 0x20 v.color)) v

/-- `vga_clear`. -/
def clear (v : Vga) : Vga :=
  let v := (List.range vgaHeight).foldl clearRow v
  { v with row := 0, column := 0 }

/-- `hex_chars`. -/
def hexChars : CString := .ofString "0123456789ABCDEF"

/-- The string `vga_print_hex` builds: `0x` and eight digits, the highest first. -/
def hexString (value : Word) : CString :=
  CString.ofString "0x" ++ [7, 6, 5, 4, 3, 2, 1, 0].map fun index =>
    hexChars.getD ((value >>> (index * 4)) &&& 0xF).toNat 0

/-- `vga_print_hex`. -/
def printHex (v : Vga) (value : Word) : Vga := v.print (hexString value)

/-- A call of the driver. -/
inductive Call where
  | putchar (char : Byte)
  | print (data : CString)
  | setColor (foreground background : Byte)
  | printHex (value : Word)
  | scroll
  | clear

/-- One call. -/
def step (v : Vga) : Call → Vga
  | .putchar char => v.putchar char
  | .print data => v.print data
  | .setColor foreground background => v.setColor foreground background
  | .printHex value => v.printHex value
  | .scroll => v.scroll
  | .clear => v.clear

/-! ## What the loops do -/

/-- What only `vga_init` and `vga_set_color` assign. -/
def settings (v : Vga) : Byte × Bool := (v.color, v.ready)

theorem color_of_settings {v w : Vga} (same : w.settings = v.settings) : w.color = v.color :=
  congrArg Prod.fst same

theorem ready_of_settings {v w : Vga} (same : w.settings = v.settings) : w.ready = v.ready :=
  congrArg Prod.snd same

section Loops

variable (v : Vga)

/-- A loop over the columns of a row that stores what the state before the loop determines. -/
theorem foldl_columns (store : Vga → Nat → Vga) (base : Nat) (cells : Nat → Cell)
    (stored : ∀ w x, w.settings = v.settings →
      (∀ index, base + x ≤ index → w.buffer index = v.buffer index) →
      (store w x).settings = w.settings ∧
        (store w x).buffer = Function.update w.buffer (base + x) (cells x)) (count : Nat) :
    ((List.range count).foldl store v).settings = v.settings ∧
      ∀ index, ((List.range count).foldl store v).buffer index =
        if base ≤ index ∧ index < base + count then cells (index - base) else v.buffer index := by
  induction count with
  | zero => exact ⟨rfl, fun index => (if_neg (by omega)).symm⟩
  | succ count ih =>
      obtain ⟨settings, buffer⟩ := ih
      have above : ∀ index, base + count ≤ index →
          ((List.range count).foldl store v).buffer index = v.buffer index := by
        intro index beyond
        rw [buffer, if_neg (by omega)]
      obtain ⟨same, sameBuffer⟩ := stored _ count settings above
      rw [List.range_succ, List.foldl_append, List.foldl_cons, List.foldl_nil]
      refine ⟨same.trans settings, fun index => ?_⟩
      rw [sameBuffer]
      by_cases last : index = base + count
      · subst last
        rw [Function.update_self, if_pos (by omega), Nat.add_sub_cancel_left]
      · rw [Function.update_of_ne last, buffer]
        by_cases inside : base ≤ index ∧ index < base + count
        · rw [if_pos inside, if_pos (by omega)]
        · rw [if_neg inside, if_neg (by omega)]

/-- A row is copied from the row below it. -/
theorem copyRow_spec (y : Nat) : (v.copyRow y).settings = v.settings ∧
    ∀ index, (v.copyRow y).buffer index =
      if y * vgaWidth ≤ index ∧ index < y * vgaWidth + vgaWidth then v.buffer (index + vgaWidth)
      else v.buffer index := by
  have below : ∀ x, (y + 1) * vgaWidth + x = y * vgaWidth + x + vgaWidth := by
    intro x
    rw [Nat.succ_mul]
    omega
  obtain ⟨settings, buffer⟩ := v.foldl_columns (fun w x => w.copyUp y x) (y * vgaWidth)
    (fun x => v.buffer (y * vgaWidth + x + vgaWidth))
    (fun w x _ above => ⟨rfl, by
      rw [← above (y * vgaWidth + x + vgaWidth) (by omega), ← below]
      rfl⟩) vgaWidth
  refine ⟨settings, fun index => (buffer index).trans ?_⟩
  by_cases inside : y * vgaWidth ≤ index ∧ index < y * vgaWidth + vgaWidth
  · rw [if_pos inside, if_pos inside, Nat.add_sub_cancel' inside.1]
  · rw [if_neg inside, if_neg inside]

theorem clearLastRow_spec : v.clearLastRow.settings = v.settings ∧
    ∀ index, v.clearLastRow.buffer index =
      if (vgaHeight - 1) * vgaWidth ≤ index ∧ index < (vgaHeight - 1) * vgaWidth + vgaWidth then
        vgaEntry 0x20 v.color
      else v.buffer index := by
  rw [clearLastRow]
  refine v.foldl_columns _ ((vgaHeight - 1) * vgaWidth) (fun _ => vgaEntry 0x20 v.color) ?_ vgaWidth
  intro w x settings _
  have color := color_of_settings settings
  rw [← color]
  exact ⟨rfl, rfl⟩

theorem clearRow_spec (y : Nat) : (v.clearRow y).settings = v.settings ∧
    ∀ index, (v.clearRow y).buffer index =
      if y * vgaWidth ≤ index ∧ index < y * vgaWidth + vgaWidth then vgaEntry 0x20 v.color
      else v.buffer index := by
  rw [clearRow]
  refine v.foldl_columns _ (y * vgaWidth) (fun _ => vgaEntry 0x20 v.color) ?_ vgaWidth
  intro w x settings _
  have color := color_of_settings settings
  rw [← color]
  exact ⟨rfl, rfl⟩

/-- Copying rows from the top moves each one up: no row is read after it was overwritten. -/
theorem copyRows_spec (count : Nat) : ((List.range count).foldl copyRow v).settings = v.settings ∧
    ∀ index, ((List.range count).foldl copyRow v).buffer index =
      if index < count * vgaWidth then v.buffer (index + vgaWidth) else v.buffer index := by
  induction count with
  | zero => exact ⟨rfl, fun index => (if_neg (by omega)).symm⟩
  | succ count ih =>
      obtain ⟨settings, buffer⟩ := ih
      obtain ⟨same, sameBuffer⟩ := ((List.range count).foldl copyRow v).copyRow_spec count
      rw [List.range_succ, List.foldl_append, List.foldl_cons, List.foldl_nil]
      refine ⟨same.trans settings, fun index => (sameBuffer index).trans ?_⟩
      rw [Nat.succ_mul]
      by_cases row : count * vgaWidth ≤ index ∧ index < count * vgaWidth + vgaWidth
      · rw [if_pos row, if_pos row.2, buffer, if_neg (by omega)]
      · rw [if_neg row, buffer]
        by_cases above : index < count * vgaWidth
        · rw [if_pos above, if_pos (by omega)]
        · rw [if_neg above, if_neg (by omega)]

theorem clearRows_spec (count : Nat) : ((List.range count).foldl clearRow v).settings = v.settings ∧
    ∀ index, ((List.range count).foldl clearRow v).buffer index =
      if index < count * vgaWidth then vgaEntry 0x20 v.color else v.buffer index := by
  induction count with
  | zero => exact ⟨rfl, fun index => (if_neg (by omega)).symm⟩
  | succ count ih =>
      obtain ⟨settings, buffer⟩ := ih
      obtain ⟨same, sameBuffer⟩ := ((List.range count).foldl clearRow v).clearRow_spec count
      rw [List.range_succ, List.foldl_append, List.foldl_cons, List.foldl_nil]
      refine ⟨same.trans settings, fun index => (sameBuffer index).trans ?_⟩
      have color : ((List.range count).foldl clearRow v).color = v.color :=
        color_of_settings settings
      rw [Nat.succ_mul, color]
      by_cases row : count * vgaWidth ≤ index ∧ index < count * vgaWidth + vgaWidth
      · rw [if_pos row, if_pos row.2]
      · rw [if_neg row, buffer]
        by_cases above : index < count * vgaWidth
        · rw [if_pos above, if_pos (by omega)]
        · rw [if_neg above, if_neg (by omega)]

end Loops

/-- The cell in a row and a column of the screen. -/
def screen (v : Vga) (y x : Nat) : Cell := v.buffer (y * vgaWidth + x)

section Screen

variable (v : Vga) {x y : Nat}

/-- The index of a cell, against the rows above the last and the last row. -/
theorem index_place (row : y < vgaHeight) (column : x < vgaWidth) :
    y * vgaWidth + x < vgaHeight * vgaWidth ∧
    (y = vgaHeight - 1 → (vgaHeight - 1) * vgaWidth ≤ y * vgaWidth + x ∧
      y * vgaWidth + x < (vgaHeight - 1) * vgaWidth + vgaWidth) ∧
    (y ≠ vgaHeight - 1 → y * vgaWidth + x < (vgaHeight - 1) * vgaWidth) := by
  simp only [vgaHeight, vgaWidth] at *
  omega

/-- `vga_scroll` moves the rows up and blanks the last one in the current colour. -/
theorem scroll_screen (row : y < vgaHeight) (column : x < vgaWidth) :
    v.scroll.screen y x =
      if y = vgaHeight - 1 then vgaEntry 0x20 v.color else v.screen (y + 1) x := by
  obtain ⟨settings, copied⟩ := v.copyRows_spec (vgaHeight - 1)
  obtain ⟨_, cleared⟩ := ((List.range (vgaHeight - 1)).foldl copyRow v).clearLastRow_spec
  have color := color_of_settings settings
  have place := cleared (y * vgaWidth + x)
  rw [color, copied] at place
  obtain ⟨_, lastRow, otherRow⟩ := index_place row column
  simp only [scroll, screen]
  rw [place]
  by_cases last : y = vgaHeight - 1
  · rw [if_pos last, if_pos (lastRow last)]
  · have above := otherRow last
    rw [if_neg last, if_neg (by omega), if_pos above, Nat.succ_mul, Nat.add_right_comm]

theorem scroll_settings : v.scroll.settings = v.settings := by
  obtain ⟨copied, _⟩ := v.copyRows_spec (vgaHeight - 1)
  obtain ⟨cleared, _⟩ := ((List.range (vgaHeight - 1)).foldl copyRow v).clearLastRow_spec
  have both := cleared.trans copied
  simp only [settings, scroll] at both ⊢
  exact both

theorem clear_screen (row : y < vgaHeight) (column : x < vgaWidth) :
    v.clear.screen y x = vgaEntry 0x20 v.color := by
  obtain ⟨_, buffer⟩ := v.clearRows_spec vgaHeight
  have inside := (index_place row column).1
  simp only [clear, screen]
  rw [buffer, if_pos inside]

theorem clear_settings : v.clear.settings = v.settings := by
  obtain ⟨cleared, _⟩ := v.clearRows_spec vgaHeight
  simp only [settings, clear] at cleared ⊢
  exact cleared

/-- Writing a cell changes the screen there only. -/
theorem putentryat_screen (char color : Byte) {column row : Nat} (inside : column < vgaWidth)
    (bound : x < vgaWidth) :
    (v.putentryat char color column row).screen y x =
      if y = row ∧ x = column then vgaEntry char color else v.screen y x := by
  simp only [screen, putentryat, write]
  by_cases here : y = row ∧ x = column
  · rw [if_pos here, here.1, here.2, Function.update_self]
  · have other : y * vgaWidth + x ≠ row * vgaWidth + column := by
      simp only [vgaWidth] at *
      omega
    rw [if_neg here, Function.update_of_ne other]

end Screen

end Vga

end SimpleOS
