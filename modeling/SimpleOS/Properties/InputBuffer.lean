import SimpleOS.Library.GuardedRun
import SimpleOS.Drivers.Keyboard

/-!
# Input buffer safety

For every byte stream and any number of calls, the position stays inside
`input_buffer`, every write is inside it, and a returned line ends at the
position.
-/

namespace SimpleOS

open Library.ByteMemory Library.GuardedRun

/-- The position is inside the buffer, no character before it is NUL, and every write was inside
the buffer. -/
structure LineSafe (s : KeyboardState) (writes : List Int) : Prop where
  lower : 0 ≤ s.bufferPos
  upper : s.bufferPos ≤ 255
  filled : ∀ index, 0 ≤ index → index < s.bufferPos → s.inputBuffer index ≠ 0
  writes : ∀ index ∈ writes, 0 ≤ index ∧ index ≤ 255

namespace Poll

/-- A round in progress is safe. -/
def Safe (p : Poll) : Prop := LineSafe p.keyboard p.writes

section Editing

variable {p : Poll}

/-- Storing at the position. -/
theorem store_safe (safe : p.Safe) (char : Byte) : (p.store char).Safe := by
  refine ⟨safe.lower, safe.upper, fun index lower below => ?_, fun index member => ?_⟩
  · change index < p.keyboard.bufferPos at below
    change Function.update p.keyboard.inputBuffer p.keyboard.bufferPos char index ≠ 0
    rw [Function.update_of_ne (Int.ne_of_lt below)]
    exact safe.filled index lower below
  · rcases List.mem_append.mp member with earlier | last
    · exact safe.writes index earlier
    · obtain rfl := List.mem_singleton.mp last
      exact ⟨safe.lower, safe.upper⟩

/-- Typing a character below position 255. -/
theorem typeChar_safe (safe : p.Safe) {char : Byte} (nonzero : char ≠ 0)
    (room : p.keyboard.bufferPos < 255) : (p.typeChar char).Safe := by
  have stored := store_safe safe char
  have lower := safe.lower
  refine ⟨?_, ?_, fun index above below => ?_, stored.writes⟩
  · change 0 ≤ p.keyboard.bufferPos + 1
    omega
  · change p.keyboard.bufferPos + 1 ≤ 255
    omega
  · change index < p.keyboard.bufferPos + 1 at below
    change Function.update p.keyboard.inputBuffer p.keyboard.bufferPos char index ≠ 0
    rcases Int.lt_or_eq_of_le (Int.le_of_lt_add_one below) with earlier | last
    · rw [Function.update_of_ne (Int.ne_of_lt earlier)]
      exact safe.filled index above earlier
    · rw [last, Function.update_self]
      exact nonzero

theorem eraseChar_safe (safe : p.Safe) : p.eraseChar.Safe := by
  simp only [eraseChar]
  split
  · next positive =>
      have upper := safe.upper
      refine ⟨?_, ?_, fun index lower below => ?_, safe.writes⟩
      · change 0 ≤ p.keyboard.bufferPos - 1
        omega
      · change p.keyboard.bufferPos - 1 ≤ 255
        omega
      · change index < p.keyboard.bufferPos - 1 at below
        exact safe.filled index lower (by omega)
  · exact safe

theorem tabLoop_safe (left : Nat) (safe : p.Safe) : (tabLoop left p).Safe := by
  induction left generalizing p with
  | zero => exact safe
  | succ left ih =>
      simp only [tabLoop]
      split
      · exact ih (typeChar_safe safe (by decide) (by omega))
      · exact safe

end Editing

end Poll

namespace KeyboardState

section Rounds

variable {s : KeyboardState}

/-- A round that starts from the state has written nothing yet. -/
theorem start_safe {writes : List Int} (safe : LineSafe s writes) :
    Poll.Safe { keyboard := s } :=
  ⟨safe.lower, safe.upper, safe.filled, fun _ member => nomatch member⟩

/-- Assignments outside the buffer and its position keep a round safe. -/
theorem safe_of_same {t : KeyboardState} {writes : List Int} (safe : LineSafe s writes)
    (pos : t.bufferPos = s.bufferPos) (buffer : t.inputBuffer = s.inputBuffer) :
    LineSafe t writes := by
  obtain ⟨lower, upper, filled, written⟩ := safe
  rw [← pos, ← buffer] at filled
  exact ⟨pos ▸ lower, pos ▸ upper, filled, written⟩

theorem cool_same (s : KeyboardState) :
    s.cool.bufferPos = s.bufferPos ∧ s.cool.inputBuffer = s.inputBuffer := by
  simp only [cool]
  split <;> exact ⟨rfl, rfl⟩

theorem updateModifiers_same (s : KeyboardState) (scancode : Byte) (keyReleased : Bool) :
    (s.updateModifiers scancode keyReleased).bufferPos = s.bufferPos ∧
      (s.updateModifiers scancode keyReleased).inputBuffer = s.inputBuffer := by
  simp only [updateModifiers]
  repeat' split
  all_goals exact ⟨rfl, rfl⟩

theorem release_same (s : KeyboardState) (releasedKey : Byte) :
    (s.release releasedKey).bufferPos = s.bufferPos ∧
      (s.release releasedKey).inputBuffer = s.inputBuffer := by
  have same := s.updateModifiers_same releasedKey true
  simp only [release]
  split <;> exact same

theorem repeatKey_safe {writes : List Int} (safe : LineSafe s writes) (char : s.heldKeyChar ≠ 0) :
    s.repeatKey.Safe := by
  have start : Poll.Safe (Poll.hideCursor { keyboard := s }) := start_safe safe
  simp only [repeatKey]
  split
  · exact safe_of_same (Poll.eraseChar_safe start) rfl rfl
  split
  · next repeats => exact safe_of_same (Poll.typeChar_safe start char repeats.2) rfl rfl
  · exact safe_of_same start rfl rfl

theorem hold_safe {writes : List Int} (safe : LineSafe s writes) : s.hold.Safe := by
  have held : LineSafe { s with keyHoldTime := s.keyHoldTime + 1 } writes :=
    safe_of_same safe rfl rfl
  simp only [hold]
  split
  · exact start_safe (safe_of_same safe rfl rfl)
  split
  · next char => exact repeatKey_safe held char
  · exact start_safe (safe_of_same safe rfl rfl)

theorem idle_safe {writes : List Int} (safe : LineSafe s writes) : s.idle.Safe := by
  have held : LineSafe { s with keyHoldTime := s.keyHoldTime + 1 } writes :=
    safe_of_same safe rfl rfl
  simp only [idle]
  split
  · next holding =>
      split
      · exact start_safe (safe_of_same safe rfl rfl)
      · exact repeatKey_safe held holding.2
  · exact start_safe safe

theorem pressEnter_safe {p : Poll} (safe : p.Safe) : (pressEnter p).Safe := by
  simp only [pressEnter]
  split
  · exact Poll.store_safe (p := p.display [.print [0x0A]]) safe 0
  · exact safe

theorem pressChar_safe {p : Poll} (safe : p.Safe) (scancode : Byte) :
    (pressChar p scancode).Safe := by
  simp only [pressChar]
  split
  · next fits => exact safe_of_same (Poll.typeChar_safe safe fits.1 fits.2) rfl rfl
  · exact safe_of_same safe rfl rfl

theorem press_safe {writes : List Int} (safe : LineSafe s writes) (scancode : Byte) :
    (s.press scancode).Safe := by
  have same := updateModifiers_same { s with lastScancode := scancode } scancode false
  have start := start_safe (safe_of_same safe same.1 same.2)
  simp only [press]
  split
  · exact start
  have held : Poll.Safe (Poll.hideCursor
      { keyboard :=
          { KeyboardState.updateModifiers { s with lastScancode := scancode } scancode false with
            heldKey := scancode, keyHoldTime := 0, repeatDelay := keyRepeatInitialDelay } }) :=
    safe_of_same start rfl rfl
  split
  · exact pressEnter_safe held
  split
  · exact safe_of_same (Poll.eraseChar_safe held) rfl rfl
  split
  · exact safe_of_same (Poll.tabLoop_safe 4 held) rfl rfl
  · exact pressChar_safe held scancode

/-- Every round is safe, whatever byte it reads. -/
theorem poll_safe {writes : List Int} (safe : LineSafe s writes) (scancode : Byte) :
    (s.poll scancode).Safe := by
  have cooled := safe_of_same safe s.cool_same.1 s.cool_same.2
  generalize taken : s.poll scancode = round
  cases taken ▸ s.poll_round scancode with
  | release _ _ =>
      have same := s.cool.release_same (scancode - 0x80)
      exact start_safe (safe_of_same cooled same.1 same.2)
  | hold _ _ _ _ => exact hold_safe cooled
  | press _ _ => exact press_safe cooled scancode
  | seen _ _ => exact start_safe cooled
  | idle _ _ => exact idle_safe cooled

end Rounds

/-! ## The end of a line -/

section Entered

theorem eraseChar_entered (p : Poll) : p.eraseChar.entered = p.entered := by
  simp only [Poll.eraseChar]
  split <;> rfl

theorem tabLoop_entered (left : Nat) (p : Poll) : (p.tabLoop left).entered = p.entered := by
  induction left generalizing p with
  | zero => rfl
  | succ left ih =>
      simp only [Poll.tabLoop]
      split
      · exact ih (p.typeChar (charByte ' '))
      · rfl

variable (s : KeyboardState)

theorem repeatKey_entered : s.repeatKey.entered = false := by
  simp only [repeatKey]
  split
  · exact eraseChar_entered _
  split <;> rfl

theorem hold_entered : s.hold.entered = false := by
  simp only [hold]
  split
  · rfl
  split
  · exact repeatKey_entered _
  · rfl

theorem idle_entered : s.idle.entered = false := by
  simp only [idle]
  split
  · split
    · rfl
    · exact repeatKey_entered _
  · rfl

theorem pressChar_entered (p : Poll) (scancode : Byte) :
    (pressChar p scancode).entered = p.entered := by
  simp only [pressChar]
  split <;> rfl

/-- Only Enter ends a line, and it puts a NUL at the position. -/
theorem press_ends {scancode : Byte} (entered : (s.press scancode).entered = true) :
    scancode = enterScancode ∧
      (s.press scancode).keyboard.inputBuffer (s.press scancode).keyboard.bufferPos = 0 := by
  simp only [press] at entered ⊢
  split at entered
  · cases entered
  next notModifier =>
  rw [if_neg notModifier]
  split at entered
  · next isEnter =>
      refine ⟨isEnter, ?_⟩
      rw [if_pos isEnter]
      simp only [pressEnter] at entered ⊢
      split at entered
      · next cooled =>
          rw [if_pos cooled]
          exact Function.update_self _ _ _
      · cases entered
  split at entered
  · rw [show Poll.entered _ = _ from eraseChar_entered _] at entered
    cases entered
  split at entered
  · rw [show Poll.entered _ = _ from tabLoop_entered _ _] at entered
    cases entered
  · rw [pressChar_entered] at entered
    cases entered

theorem poll_entered {scancode : Byte} (entered : (s.poll scancode).entered = true) :
    (s.poll scancode).keyboard.inputBuffer (s.poll scancode).keyboard.bufferPos = 0 := by
  generalize taken : s.poll scancode = round at entered ⊢
  cases taken ▸ s.poll_round scancode with
  | release _ _ => cases entered
  | hold _ _ _ _ =>
      rw [hold_entered] at entered
      cases entered
  | press _ _ => exact (press_ends s.cool entered).2
  | seen _ _ => cases entered
  | idle _ _ =>
      rw [idle_entered] at entered
      cases entered

end Entered

end KeyboardState

/-! ## Sessions -/

/-- What a session may assume of its buffer: when the line has ended there is a NUL at the
position. -/
structure Session.Safe (s : Session) : Prop where
  line : LineSafe s.keyboard s.writes
  ended : s.phase ≠ .polling → s.keyboard.inputBuffer s.keyboard.bufferPos = 0

/-- An empty line. -/
theorem lineSafe_start {s : KeyboardState} {writes : List Int} (empty : s.bufferPos = 0)
    (written : ∀ index ∈ writes, 0 ≤ index ∧ index ≤ 255) : LineSafe s writes := by
  refine ⟨Int.le_of_eq empty.symm, by omega, fun index lower below => ?_, written⟩
  omega

theorem LineSafe.append {s : KeyboardState} {earlier later : List Int}
    (safe : LineSafe s later) (before : ∀ index ∈ earlier, 0 ≤ index ∧ index ≤ 255) :
    LineSafe s (earlier ++ later) := by
  refine ⟨safe.lower, safe.upper, safe.filled, fun index member => ?_⟩
  rcases List.mem_append.mp member with old | new
  · exact before index old
  · exact safe.writes index new

namespace Session

theorem init_safe (s : KeyboardState) : (init s).Safe := by
  refine ⟨lineSafe_start rfl (fun _ member => nomatch member), fun _ => ?_⟩
  change (if (0 : Int) ≤ 0 ∧ (0 : Int) < 256 then (0 : Byte) else s.inputBuffer 0) = 0
  exact if_pos (by decide)

theorem call_safe {s : Session} (safe : s.Safe) : s.call.Safe := by
  simp only [call]
  split
  · exact ⟨lineSafe_start rfl safe.line.writes, fun running => absurd rfl running⟩
  · exact safe

theorem feed_safe {s : Session} (safe : s.Safe) (byte : Byte) : (s.feed byte).Safe := by
  simp only [feed]
  split
  · refine ⟨(KeyboardState.poll_safe safe.line byte).append safe.line.writes, fun ended => ?_⟩
    apply s.keyboard.poll_entered
    by_contra notEntered
    exact ended (if_neg notEntered)
  · next drained =>
      have ended := safe.ended (by rw [drained]; decide)
      exact ⟨KeyboardState.safe_of_same safe.line rfl rfl, fun _ => ended⟩
  · next draining =>
      have ended := safe.ended (by rw [draining]; exact fun same => nomatch same)
      exact ⟨safe.line, fun _ => ended⟩
  · exact safe

theorem step_safe (s : Session) (event : Event) (safe : s.Safe) : (s.step event).Safe := by
  cases event with
  | call => exact call_safe safe
  | byte byte => exact feed_safe safe byte

end Session

/-- A buffer that is filled up to a NUL holds the string before it. -/
theorem string_of_filled {s : KeyboardState} {length : Nat} (room : length < 256)
    (filled : ∀ index : Nat, index < length → s.inputBuffer index ≠ 0)
    (ended : s.inputBuffer length = 0) :
    s.string = (List.range length).map fun index : Nat => s.inputBuffer index := by
  obtain ⟨more, split⟩ := Nat.exists_eq_add_of_lt room
  have before : ∀ char ∈ (List.range length).map fun index : Nat => s.inputBuffer index,
      (decide (char ≠ 0)) = true := by
    intro char member
    obtain ⟨index, inside, rfl⟩ := List.mem_map.mp member
    exact decide_eq_true (filled index (List.mem_range.mp inside))
  have stops : decide (s.inputBuffer ((length + 0 : Nat) : Int) ≠ 0) = false :=
    decide_eq_false (not_not.mpr ended)
  rw [KeyboardState.string, split, Nat.add_assoc, List.range_add, List.map_append,
    List.takeWhile_append_of_pos before, List.range_succ_eq_map, List.map_cons, List.map_cons,
    List.takeWhile_cons, stops]
  exact List.append_nil _

namespace Session

/-- The position and all writes are inside `input_buffer`, and a returned line is a string that
ends at the position. -/
structure BufferSafe (s : Session) : Prop where
  lower : 0 ≤ s.keyboard.bufferPos
  upper : s.keyboard.bufferPos ≤ 255
  writes : ∀ index ∈ s.writes, 0 ≤ index ∧ index ≤ 255
  terminated : s.phase = .returned → s.keyboard.inputBuffer s.keyboard.bufferPos = 0
  filled : s.phase = .returned → ∀ index, 0 ≤ index → index < s.keyboard.bufferPos →
    s.keyboard.inputBuffer index ≠ 0
  length : s.phase = .returned → (s.keyboard.string.length : Int) = s.keyboard.bufferPos

theorem Safe.buffer {s : Session} (safe : s.Safe) : s.BufferSafe := by
  obtain ⟨⟨lower, upper, filled, writes⟩, ended⟩ := safe
  have terminated : s.phase = .returned → s.keyboard.inputBuffer s.keyboard.bufferPos = 0 := by
    intro returned
    exact ended (by rw [returned]; decide)
  refine ⟨lower, upper, writes, terminated, fun _ => filled, fun returned => ?_⟩
  have position := Int.toNat_of_nonneg lower
  have ends : s.keyboard.inputBuffer (s.keyboard.bufferPos.toNat : Int) = 0 := by
    rw [position]
    exact terminated returned
  have string := string_of_filled (by omega)
    (fun index below => filled index (by omega) (by omega)) ends
  rw [string, List.length_map, List.length_range]
  exact position

/-- Whatever bytes the port returns over any number of calls, the input buffer is safe. -/
theorem buffer_safe (s : KeyboardState) (events : List Event) :
    Always step BufferSafe (init s) events := by
  have always := always_of_invariant step_safe (init_safe s) events
  rw [always_iff_prefixes] at always ⊢
  exact fun taken rest split => (always taken rest split).buffer

end Session

end SimpleOS
