import SimpleOS.Library.TabStops
import SimpleOS.Properties.ScreenLine

/-!
# Rows of text on the screen

Lines with tabs that fit into a row, each followed by a newline: wherever the
cursor starts and however much scrolls, the rows above the cursor hold them.
-/

namespace SimpleOS.Vga

open Library.ByteMemory Library.TabStops

/-- The character that goes to the next tab stop, and the distance of the stops. -/
def tabChar : Byte := 0x09
def tabWidth : Nat := 8

/-- The characters neither end the line nor go back to its start. -/
def InLine (text : CString) : Prop := 0x0A ∉ text ∧ 0x0D ∉ text

instance : DecidablePred InLine := fun _ => inferInstanceAs (Decidable (_ ∧ _))

/-- A text has been put on the row of the cursor, and nothing else has changed. -/
structure Typeset (v w : Vga) (text : CString) : Prop where
  ready : w.ready = true
  color : w.color = v.color
  row : w.row = v.row
  column : w.column = behind tabChar tabWidth v.column text
  placed : ∀ place ∈ placed tabChar tabWidth v.column text,
    w.screen v.row place.1 = vgaEntry place.2 v.color
  others : ∀ y x, y < vgaHeight → x < vgaWidth → y ≠ v.row ∨ x < v.column →
    w.screen y x = v.screen y x

section Row

variable {v : Vga}

theorem putchar_tab (ready : v.ready = true)
    (fits : advance tabChar tabWidth v.column tabChar < vgaWidth) :
    v.putchar tabChar = { v with column := advance tabChar tabWidth v.column tabChar } := by
  have stop : (v.column + 8) / 8 * 8 = advance tabChar tabWidth v.column tabChar := by
    rw [advance, if_pos rfl, tabWidth]
    omega
  rw [putchar, if_neg (ne_false_of_eq_true ready), if_neg (by decide), if_neg (by decide),
    if_pos (show tabChar = 0x09 from rfl)]
  simp only [stop]
  exact if_neg (Nat.not_le.mpr fits)

theorem putchar_plain (ready : v.ready = true) {char : Byte} (newline : char ≠ 0x0A)
    (carriage : char ≠ 0x0D) (tab : char ≠ tabChar) (fits : v.column + 1 < vgaWidth) :
    v.putchar char =
      { v.putentryat char v.color v.column v.row with column := v.column + 1 } := by
  rw [putchar, if_neg (ne_false_of_eq_true ready), if_neg newline, if_neg carriage,
    if_neg (show ¬ char = 0x09 from tab)]
  exact if_neg (Nat.not_le.mpr fits)

theorem putchar_newline (ready : v.ready = true) : v.putchar 0x0A = v.nextRow := by
  rw [putchar, if_neg (ne_false_of_eq_true ready), if_pos rfl]

/-- A text that fits into the row is put there. -/
theorem typeset (ready : v.ready = true) (row : v.row < vgaHeight) {text : CString}
    (inLine : InLine text) (fits : behind tabChar tabWidth v.column text < vgaWidth) :
    v.Typeset (text.foldl putchar v) text := by
  induction text generalizing v with
  | nil =>
      refine ⟨ready, rfl, rfl, rfl, fun place member => ?_, fun _ _ _ _ _ => rfl⟩
      cases member
  | cons char rest ih =>
      have newline : char ≠ 0x0A := fun same => inLine.1 (same ▸ List.mem_cons_self)
      have carriage : char ≠ 0x0D := fun same => inLine.2 (same ▸ List.mem_cons_self)
      have restInLine : InLine rest :=
        ⟨fun inside => inLine.1 (List.mem_cons_of_mem char inside),
          fun inside => inLine.2 (List.mem_cons_of_mem char inside)⟩
      have positive : 0 < tabWidth := by decide
      have forward : v.column < advance tabChar tabWidth v.column char :=
        lt_advance positive v.column char
      have inside : advance tabChar tabWidth v.column char < vgaWidth :=
        Nat.lt_of_le_of_lt (le_behind positive _ rest) fits
      rcases Classical.em (char = tabChar) with rfl | tab
      · have stepped := putchar_tab ready inside
        obtain ⟨ready, color, row, column, placed, others⟩ :=
          ih (v := { v with column := advance tabChar tabWidth v.column tabChar }) ready row
            restInLine fits
        rw [List.foldl_cons, stepped]
        refine ⟨ready, color, row, column, fun place member => ?_, fun y x low high away => ?_⟩
        · rw [Library.TabStops.placed, if_pos rfl] at member
          exact placed place member
        · exact others y x low high (away.imp_right fun left => Nat.lt_trans left forward)
      · have next : advance tabChar tabWidth v.column char = v.column + 1 := if_neg tab
        rw [behind_cons, next] at fits
        rw [next] at inside
        have stepped := putchar_plain ready newline carriage tab inside
        obtain ⟨ready, color, sameRow, column, placed, others⟩ :=
          ih (v := { v.putentryat char v.color v.column v.row with column := v.column + 1 }) ready
            row restInLine fits
        have here : v.column < vgaWidth := Nat.lt_of_succ_lt inside
        rw [List.foldl_cons, stepped]
        refine ⟨ready, color, sameRow, ?_, fun place member => ?_, fun y x low high away => ?_⟩
        · rw [behind_cons, next]
          exact column
        · rw [Library.TabStops.placed, if_neg tab, next] at member
          rcases List.mem_append.mp member with first | later
          · rw [List.mem_singleton.mp first]
            refine (others v.row v.column row here (Or.inr (Nat.lt_succ_self v.column))).trans ?_
            exact (putentryat_screen v char v.color here here).trans (if_pos ⟨rfl, rfl⟩)
          · exact placed place later
        · refine (others y x low high (away.imp_right fun left => Nat.lt_succ_of_lt left)).trans ?_
          refine (putentryat_screen v char v.color here high).trans (if_neg ?_)
          rintro ⟨sameRow, sameColumn⟩
          rcases away with other | left
          · exact other sameRow
          · omega

end Row

/-! ## Newlines -/

section Newline

variable (v : Vga)

theorem nextRow_column : v.nextRow.column = 0 := by
  unfold nextRow
  dsimp only
  split <;> rfl

theorem nextRow_color : v.nextRow.color = v.color := by
  unfold nextRow
  dsimp only
  split
  · exact color_of_settings (scroll_settings _)
  · rfl

variable {v}

theorem nextRow_row (row : v.row < vgaHeight) :
    v.nextRow.row = min (v.row + 1) (vgaHeight - 1) := by
  unfold nextRow
  dsimp only
  split
  · change vgaHeight - 1 = _
    omega
  · change v.row + 1 = _
    omega

/-- Seen from the cursor, every row goes up by one. -/
theorem nextRow_screen (row : v.row < vgaHeight) (up : Nat) {x : Nat}
    (inside : up + 1 ≤ v.nextRow.row)
    (bound : x < vgaWidth) :
    v.nextRow.screen (v.nextRow.row - (up + 1)) x = v.screen (v.row - up) x := by
  have moved := nextRow_row row
  rcases Nat.lt_or_ge (v.row + 1) vgaHeight with room | full
  · have stays : v.nextRow = { v with row := v.row + 1, column := 0 } := by
      unfold nextRow
      exact if_neg (Nat.not_le.mpr room)
    rw [stays]
    exact congrArg (v.screen · x) (Nat.add_sub_add_right v.row 1 up)
  · have scrolls : v.nextRow = scroll { v with row := vgaHeight - 1, column := 0 } := by
      unfold nextRow
      exact if_pos full
    have last : v.nextRow.row = vgaHeight - 1 := by omega
    have here : v.row = vgaHeight - 1 := by omega
    rw [last] at inside ⊢
    rw [scrolls, scroll_screen _ (by omega) bound, if_neg (by omega), here]
    exact congrArg (v.screen · x) (by omega)

end Newline

/-! ## Lines above the cursor -/

/-- A line that fits into a row from its start. -/
structure Fits (line : CString) : Prop where
  inLine : InLine line
  width : behind tabChar tabWidth 0 line < vgaWidth

/-- The lines, each with its newline. -/
def linesText (lines : List CString) : CString := lines.flatMap (· ++ [0x0A])

/-- The rows above the cursor hold the lines, and the rows that were there before have gone up. -/
structure Lined (v w : Vga) (lines : List CString) : Prop where
  ready : w.ready = true
  color : w.color = v.color
  column : w.column = 0
  row : w.row = min (v.row + lines.length) (vgaHeight - 1)
  line : ∀ index text, lines[index]? = some text → lines.length - index ≤ w.row →
    ∀ place ∈ placed tabChar tabWidth 0 text,
      w.screen (w.row - (lines.length - index)) place.1 = vgaEntry place.2 v.color
  above : ∀ up x, 0 < up → up + lines.length ≤ w.row → x < vgaWidth →
    w.screen (w.row - (up + lines.length)) x = v.screen (v.row - up) x

/-- Lines that fit are put on rows of their own. -/
theorem lined {v : Vga} (ready : v.ready = true) (row : v.row < vgaHeight) (column : v.column = 0)
    {lines : List CString} (fits : ∀ line ∈ lines, Fits line) :
    v.Lined ((linesText lines).foldl putchar v) lines := by
  induction lines generalizing v with
  | nil =>
      refine ⟨ready, rfl, column, ?_, fun index text found => ?_, fun up x _ _ _ => rfl⟩
      · change v.row = min v.row (vgaHeight - 1)
        omega
      · cases found
  | cons line rest ih =>
      obtain ⟨inLine, width⟩ := fits line List.mem_cons_self
      have typed := typeset ready row inLine (column.symm ▸ width)
      have newline : (line ++ [0x0A]).foldl putchar v = (line.foldl putchar v).nextRow := by
        rw [List.foldl_append]
        exact putchar_newline typed.ready
      rw [linesText, List.flatMap_cons, List.foldl_append, newline]
      generalize line.foldl putchar v = t at typed
      have sameRow := typed.row
      have here : t.row < vgaHeight := sameRow.symm ▸ row
      have moved := nextRow_row here
      have lined := ih (v := t.nextRow) (t.nextRow_ready.trans typed.ready) (by omega)
        t.nextRow_column fun other inside => fits other (List.mem_cons_of_mem line inside)
      change Lined v ((linesText rest).foldl putchar t.nextRow) (line :: rest)
      generalize (linesText rest).foldl putchar t.nextRow = w at lined
      obtain ⟨restReady, color, restColumn, restRow, restLine, above⟩ := lined
      have sameColor : t.nextRow.color = v.color := t.nextRow_color.trans typed.color
      refine ⟨restReady, color.trans sameColor, restColumn, ?_, fun index text found inside => ?_,
        fun up x positive inside bound => ?_⟩
      · rw [List.length_cons]
        omega
      · rw [List.length_cons] at inside ⊢
        cases index with
        | zero =>
            obtain rfl : line = text := Option.some.inj found
            intro place member
            have bound := (placed_bounds (by decide : 0 < tabWidth) member).2
            have raised := above 1 place.1 Nat.one_pos (by omega) (Nat.lt_trans bound width)
            have written := nextRow_screen here 0 (by omega) (Nat.lt_trans bound width)
            rw [Nat.sub_zero, Nat.add_comm rest.length 1, raised, ← typed.placed place]
            · exact written.trans (congrArg (t.screen · place.1) sameRow)
            · rw [column]
              exact member
        | succ index =>
            have shorter : rest.length + 1 - (index + 1) = rest.length - index := by omega
            rw [shorter] at inside ⊢
            rw [← sameColor]
            exact restLine index text found inside
      · rw [List.length_cons] at inside ⊢
        have raised := above (up + 1) x (Nat.succ_pos up) (by omega) bound
        have written := nextRow_screen here up (by omega) bound
        have kept := typed.others (v.row - up) x (by omega) bound (Or.inl (by omega))
        rw [← Nat.add_assoc, Nat.add_right_comm, raised, written, sameRow, kept]

end SimpleOS.Vga
