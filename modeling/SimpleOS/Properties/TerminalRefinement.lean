import SimpleOS.Library.GuardedRun
import SimpleOS.Library.Terminal
import SimpleOS.Drivers.Vga

/-!
# The screen as a window on a terminal

`vga_set_color` and `vga_putchar` after `vga_clear`: the buffer and the cursor
are the bottom window of a terminal with unboundedly many rows, whatever is
written and however often the screen scrolls.
-/

namespace SimpleOS

open Library Library.ByteMemory Library.GuardedRun

/-- The calls that write text. -/
inductive Output where
  | setColor (foreground background : Byte)
  | putchar (char : Byte)

/-- The driver on a text call. -/
def Vga.output (v : Vga) : Output → Vga
  | .setColor foreground background => v.setColor foreground background
  | .putchar char => v.putchar char

/-- The unbounded terminal with the current colour. -/
structure Console where
  terminal : Terminal Cell
  color : Byte

namespace Console

/-- The blank of the current colour. -/
def blank (c : Console) : Cell := vgaEntry 0x20 c.color

/-- An empty terminal in some colour. -/
def cleared (color : Byte) : Console where
  terminal := .cleared (vgaEntry 0x20 color)
  color := color

/-- Newline. -/
def nextRow (c : Console) : Console :=
  { c with terminal := c.terminal.nextRow vgaHeight c.blank }

/-- The terminal on a text call. -/
def output (c : Console) : Output → Console
  | .setColor foreground background => { c with color := vgaEntryColor foreground background }
  | .putchar char =>
      if char = 0x0A then c.nextRow
      else if char = 0x0D then { c with terminal := c.terminal.carriageReturn }
      else if char = 0x09 then
        if c.terminal.column < 72 then
          { c with terminal :=
              c.terminal.moveTo vgaHeight vgaWidth (8 * (c.terminal.column / 8 + 1)) c.blank }
        else c.nextRow
      else
        { c with terminal := c.terminal.put vgaHeight vgaWidth (vgaEntry char c.color) c.blank }

end Console

/-- The driver shows the bottom window of the terminal. -/
structure Shows (v : Vga) (c : Console) : Prop where
  ready : v.ready = true
  color : v.color = c.color
  row : v.row = min c.terminal.row (vgaHeight - 1)
  column : v.column = c.terminal.column
  inside : c.terminal.column < vgaWidth
  screen : ∀ y x, y < vgaHeight → x < vgaWidth →
    v.screen y x = c.terminal.window vgaHeight y x

section Simulation

variable {v : Vga} {c : Console}

/-- The wrap-and-scroll step shows the next row of the terminal, wherever the cursor was. -/
theorem shows_nextRow (ready : v.ready = true) (color : v.color = c.color)
    (row : v.row = min c.terminal.row (vgaHeight - 1))
    (screen : ∀ y x, y < vgaHeight → x < vgaWidth →
      v.screen y x = c.terminal.window vgaHeight y x) : Shows v.nextRow c.nextRow := by
  rcases Nat.lt_or_ge (c.terminal.row + 1) vgaHeight with room | full
  · have stays : ¬ v.row + 1 ≥ vgaHeight := by omega
    simp only [Vga.nextRow, if_neg stays]
    refine ⟨ready, color, ?_, rfl, vgaWidth_pos, fun y x yBound xBound => ?_⟩
    · simp only [Console.nextRow, Terminal.nextRow]
      omega
    · exact (screen y x yBound xBound).trans (c.terminal.nextRow_window_above room y x).symm
  · have scrolls : v.row + 1 ≥ vgaHeight := by omega
    simp only [Vga.nextRow, if_pos scrolls]
    have settings := Vga.scroll_settings { v with row := vgaHeight - 1, column := 0 }
    refine ⟨(Vga.ready_of_settings settings).trans ready,
      (Vga.color_of_settings settings).trans color, ?_,
      rfl, vgaWidth_pos, fun y x yBound xBound => ?_⟩
    · simp only [Console.nextRow, Terminal.nextRow, Vga.scroll]
      omega
    · rw [Vga.scroll_screen _ yBound xBound]
      refine Eq.trans ?_ (c.terminal.nextRow_window_full full yBound x).symm
      split
      · rw [Console.blank, color]
      · next notLast => exact screen (y + 1) x (by omega) xBound

/-- Writing a cell under the cursor and stepping on. -/
theorem shows_put (shows : Shows v c) (char : Byte) :
    Shows
      (let w := v.putentryat char v.color v.column v.row
       let w := { w with column := w.column + 1 }
       if w.column ≥ vgaWidth then w.nextRow else w)
      { c with terminal := c.terminal.put vgaHeight vgaWidth (vgaEntry char c.color) c.blank } := by
  obtain ⟨ready, color, row, column, inside, screen⟩ := shows
  have written : ∀ y x, y < vgaHeight → x < vgaWidth →
      (v.putentryat char v.color v.column v.row).screen y x =
        (c.terminal.overwrite (vgaEntry char c.color)).window vgaHeight y x := by
    intro y x yBound xBound
    rw [v.putentryat_screen char v.color (column ▸ inside) xBound,
      c.terminal.overwrite_window (vgaEntry char c.color) vgaHeight_pos, screen y x yBound xBound]
    simp only [color, row, column]
  rcases Nat.lt_or_ge (v.column + 1) vgaWidth with fits | wraps
  · have notWrapped : ¬ (v.putentryat char v.color v.column v.row).column + 1 ≥ vgaWidth :=
      Nat.not_le.mpr fits
    have moves : c.terminal.column + 1 < vgaWidth := column ▸ fits
    simp only [if_neg notWrapped, Terminal.put, Terminal.moveTo, if_pos moves]
    exact ⟨ready, color, row, congrArg (· + 1) column, moves, written⟩
  · have wrapped : (v.putentryat char v.color v.column v.row).column + 1 ≥ vgaWidth := wraps
    have moves : ¬ c.terminal.column + 1 < vgaWidth := column ▸ Nat.not_lt.mpr wraps
    simp only [if_pos wrapped, Terminal.put, Terminal.moveTo, if_neg moves]
    exact shows_nextRow (c := { c with terminal := c.terminal.overwrite (vgaEntry char c.color) })
      ready color row written

/-- Tab stops every eight columns; the last one that fits is at column 72. -/
theorem shows_tab (shows : Shows v c) :
    Shows
      (let w := { v with column := (v.column + 8) / 8 * 8 }
       if w.column ≥ vgaWidth then w.nextRow else w)
      (if c.terminal.column < 72 then
        { c with terminal :=
            c.terminal.moveTo vgaHeight vgaWidth (8 * (c.terminal.column / 8 + 1)) c.blank }
      else c.nextRow) := by
  obtain ⟨ready, color, row, column, inside, screen⟩ := shows
  have stop : (v.column + 8) / 8 * 8 = 8 * (c.terminal.column / 8 + 1) := by omega
  rcases Nat.lt_or_ge c.terminal.column 72 with early | late
  · have fits : 8 * (c.terminal.column / 8 + 1) < vgaWidth := by
      simp only [vgaWidth]
      omega
    simp only [stop, if_pos early, Terminal.moveTo, if_pos fits, if_neg (Nat.not_le.mpr fits)]
    exact ⟨ready, color, row, rfl, fits, screen⟩
  · have beyond : 8 * (c.terminal.column / 8 + 1) ≥ vgaWidth := by
      simp only [vgaWidth]
      omega
    simp only [stop, if_neg (Nat.not_lt.mpr late), if_pos beyond]
    exact shows_nextRow ready color row screen

/-- One call keeps the window in step with the terminal. -/
theorem shows_output (shows : Shows v c) (call : Output) :
    Shows (v.output call) (c.output call) := by
  cases call with
  | setColor foreground background =>
      exact ⟨shows.ready, rfl, shows.row, shows.column, shows.inside, shows.screen⟩
  | putchar char =>
      have ready : ¬ v.ready = false := by
        rw [shows.ready]
        decide
      simp only [Vga.output, Console.output, Vga.putchar, if_neg ready]
      split
      · exact shows_nextRow shows.ready shows.color shows.row shows.screen
      split
      · exact ⟨shows.ready, shows.color, shows.row, rfl, vgaWidth_pos, shows.screen⟩
      split
      · exact shows_tab shows
      · exact shows_put shows char

theorem shows_clear (ready : v.ready = true) : Shows v.clear (.cleared v.color) := by
  have settings := v.clear_settings
  refine ⟨(Vga.ready_of_settings settings).trans ready, Vga.color_of_settings settings, rfl, rfl,
    vgaWidth_pos, fun y x yBound xBound => ?_⟩
  exact v.clear_screen yBound xBound

/-- A run of calls keeps the window in step with the terminal. -/
theorem shows_run (shows : Shows v c) (calls : List Output) :
    Shows (run Vga.output v calls) (run Console.output c calls) := by
  induction calls generalizing v c with
  | nil => exact shows
  | cons call rest ih => exact ih (shows_output shows call)

/-- After `vga_clear`, text output shows the bottom window of the unbounded terminal. -/
theorem screen_refines_terminal (ready : v.ready = true) (calls : List Output) :
    Shows (run Vga.output v.clear calls) (run Console.output (.cleared v.color) calls) :=
  shows_run (shows_clear ready) calls

/-- A coloured line, a tab and a newline on the booted screen. -/
theorem screen_refines_terminal_boot :
    Shows
      (run Vga.output (Vga.init fun _ => 0).clear
        [.setColor 15 0, .putchar 0x41, .putchar 0x09, .putchar 0x0A])
      (run Console.output (.cleared (vgaEntryColor vgaColorLightGrey vgaColorBlack))
        [.setColor 15 0, .putchar 0x41, .putchar 0x09, .putchar 0x0A]) :=
  screen_refines_terminal rfl _

end Simulation

end SimpleOS
