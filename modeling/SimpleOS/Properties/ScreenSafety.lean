import SimpleOS.Library.GuardedRun
import SimpleOS.Drivers.Vga

/-!
# Screen memory safety

Whatever is printed, the cursor is on the screen after every call, and no call
reads or writes `vga_buffer` outside its 80 by 25 cells.
-/

namespace SimpleOS.Vga

open Library.ByteMemory Library.GuardedRun

/-- The cursor is on the screen, and so was every cell used. -/
structure Safe (v : Vga) : Prop where
  row : v.row < vgaHeight
  column : v.column < vgaWidth
  accesses : ∀ index ∈ v.accesses, index < vgaWidth * vgaHeight

/-- A cell of the screen has an index below 80 * 25. -/
theorem index_lt {x y : Nat} (column : x < vgaWidth) (row : y < vgaHeight) :
    y * vgaWidth + x < vgaWidth * vgaHeight := by
  simp only [vgaWidth, vgaHeight] at *
  omega

theorem lastColumn_lt : vgaWidth - 1 < vgaWidth := by decide
theorem lastRow_lt : vgaHeight - 1 < vgaHeight := by decide

section Cells

variable {v : Vga} {index : Nat}

theorem write_safe (safe : v.Safe) (inside : index < vgaWidth * vgaHeight) (cell : Cell) :
    (v.write index cell).Safe := by
  refine ⟨safe.row, safe.column, fun other member => ?_⟩
  rcases List.mem_cons.mp member with rfl | earlier
  · exact inside
  · exact safe.accesses other earlier

theorem copyUp_safe (safe : v.Safe) {x y : Nat} (column : x < vgaWidth)
    (row : y < vgaHeight - 1) : (v.copyUp y x).Safe := by
  have source : (y + 1) * vgaWidth + x < vgaWidth * vgaHeight :=
    index_lt column (Nat.add_lt_of_lt_sub row)
  have target : y * vgaWidth + x < vgaWidth * vgaHeight :=
    index_lt column (Nat.lt_of_lt_of_le row (Nat.sub_le _ _))
  have read : Safe { v with accesses := ((y + 1) * vgaWidth + x) :: v.accesses } := by
    refine ⟨safe.row, safe.column, fun other member => ?_⟩
    rcases List.mem_cons.mp member with rfl | earlier
    · exact source
    · exact safe.accesses other earlier
  exact write_safe read target _

theorem copyRow_safe (safe : v.Safe) {y : Nat} (row : y < vgaHeight - 1) : (v.copyRow y).Safe :=
  List.foldlRecOn _ _ safe fun _ inner _ member =>
    copyUp_safe inner (List.mem_range.mp member) row

theorem clearLastRow_safe (safe : v.Safe) : v.clearLastRow.Safe :=
  List.foldlRecOn _ _ safe fun _ inner _ member =>
    write_safe inner (index_lt (List.mem_range.mp member) lastRow_lt) _

theorem clearRow_safe (safe : v.Safe) {y : Nat} (row : y < vgaHeight) : (v.clearRow y).Safe :=
  List.foldlRecOn _ _ safe fun _ inner _ member =>
    write_safe inner (index_lt (List.mem_range.mp member) row) _

theorem scroll_safe (safe : v.Safe) : v.scroll.Safe := by
  have copied : ((List.range (vgaHeight - 1)).foldl copyRow v).Safe :=
    List.foldlRecOn _ _ safe fun _ inner _ member =>
      copyRow_safe inner (List.mem_range.mp member)
  exact ⟨lastRow_lt, vgaWidth_pos, (clearLastRow_safe copied).accesses⟩

/-- The cursor leaves the screen downwards only until the scroll. -/
theorem nextRow_safe
    (accesses : ∀ index ∈ v.accesses, index < vgaWidth * vgaHeight) : v.nextRow.Safe := by
  simp only [nextRow]
  split
  · exact scroll_safe ⟨lastRow_lt, vgaWidth_pos, accesses⟩
  · next inside => exact ⟨Nat.lt_of_not_le inside, vgaWidth_pos, accesses⟩

theorem putchar_safe (safe : v.Safe) (char : Byte) : (v.putchar char).Safe := by
  simp only [putchar]
  split
  · exact safe
  split
  · exact nextRow_safe safe.accesses
  split
  · exact ⟨safe.row, vgaWidth_pos, safe.accesses⟩
  split
  · split
    · exact nextRow_safe safe.accesses
    · next inside => exact ⟨safe.row, Nat.lt_of_not_le inside, safe.accesses⟩
  · have written := write_safe safe (index_lt safe.column safe.row) (vgaEntry char v.color)
    split
    · exact nextRow_safe written.accesses
    · next inside => exact ⟨written.row, Nat.lt_of_not_le inside, written.accesses⟩

/-- A backspace steps back over the start of a line, but never over the first cell. -/
theorem printChar_safe (safe : v.Safe) (char : Byte) : (v.printChar char).Safe := by
  simp only [printChar]
  split
  · split
    · have column : v.column - 1 < vgaWidth := Nat.lt_of_le_of_lt (Nat.sub_le _ _) safe.column
      have moved : Safe { v with column := v.column - 1 } := ⟨safe.row, column, safe.accesses⟩
      exact write_safe moved (index_lt column safe.row) _
    split
    · have row : v.row - 1 < vgaHeight := Nat.lt_of_le_of_lt (Nat.sub_le _ _) safe.row
      have moved : Safe { v with row := v.row - 1, column := vgaWidth - 1 } :=
        ⟨row, lastColumn_lt, safe.accesses⟩
      exact write_safe moved (index_lt lastColumn_lt row) _
    · exact safe
  · exact putchar_safe safe char

theorem print_safe (safe : v.Safe) (data : CString) : (v.print data).Safe :=
  List.foldlRecOn _ _ safe fun _ inner char _ => printChar_safe inner char

theorem clear_safe (safe : v.Safe) : v.clear.Safe := by
  have cleared : ((List.range vgaHeight).foldl clearRow v).Safe :=
    List.foldlRecOn _ _ safe fun _ inner _ member =>
      clearRow_safe inner (List.mem_range.mp member)
  exact ⟨vgaHeight_pos, vgaWidth_pos, cleared.accesses⟩

end Cells

/-- Every call of the driver keeps the screen safe. -/
theorem step_safe (v : Vga) (call : Call) (safe : v.Safe) : (v.step call).Safe := by
  cases call with
  | putchar char => exact putchar_safe safe char
  | print data => exact print_safe safe data
  | setColor foreground background => exact ⟨safe.row, safe.column, safe.accesses⟩
  | printHex value => exact print_safe safe _
  | scroll => exact scroll_safe safe
  | clear => exact clear_safe safe

theorem init_safe (memory : Nat → Cell) : (init memory).Safe := by
  refine ⟨vgaHeight_pos, vgaWidth_pos, fun index member => ?_⟩
  obtain rfl := List.mem_singleton.mp member
  decide

/-- After `vga_init`, every call of every run of calls keeps the screen safe. -/
theorem screen_safe (memory : Nat → Cell) (calls : List Call) :
    Always step Safe (init memory) calls :=
  always_of_invariant step_safe (init_safe memory) calls

end SimpleOS.Vga
