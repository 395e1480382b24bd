import SimpleOS.Properties.KeyRepeat

/-!
# When a held key repeats

Polls that find a held key again, or an idle port, count its delay down and
repeat it when the delay is over.  Both rates of the acceleration are the same,
so the number of repeats after some polls is a quotient.
-/

namespace SimpleOS

open Library.ByteMemory Library.GuardedRun

/-- The repeats in so many polls, the first of them when the delay is over. -/
def repeatsIn (delay polls : Nat) : Nat :=
  (polls - delay + keyRepeatRate.toNat) / (keyRepeatRate.toNat + 1)

theorem repeatsIn_zero (delay : Nat) : repeatsIn delay 0 = 0 := by
  rw [repeatsIn, Nat.zero_sub, Nat.zero_add]
  rfl

theorem repeatsIn_wait (delay polls : Nat) :
    repeatsIn (delay + 1) (polls + 1) = repeatsIn delay polls := by
  rw [repeatsIn, repeatsIn, Nat.add_sub_add_right]

theorem repeatsIn_due (polls : Nat) :
    repeatsIn 0 (polls + 1) = repeatsIn keyRepeatRate.toNat polls + 1 := by
  have rate : keyRepeatRate.toNat = 5000 := rfl
  rw [repeatsIn, repeatsIn, rate]
  omega

namespace KeyboardState

/-- A key with a character is held, and its delay is not over. -/
structure Holding (s : KeyboardState) (delay : Nat) : Prop where
  safe : LineSafe s []
  key : s.heldKey ≠ 0
  char : s.heldKeyChar ≠ 0
  delay : s.repeatDelay = delay

/-- The text after so many repeats of the held key. -/
def repeated (s : KeyboardState) (count : Nat) : List Byte :=
  if s.heldKey = backspaceScancode then s.text.take (s.text.length - count)
  else if s.heldKeyChar = backspaceChar then s.text
  else s.text ++ List.replicate (min count (255 - s.text.length)) s.heldKeyChar

/-- `key_hold_time++`. -/
def counted (s : KeyboardState) : KeyboardState := { s with keyHoldTime := s.keyHoldTime + 1 }

/-- What both branches with a repeat do to a key with a character. -/
def again (s : KeyboardState) : Poll :=
  if s.repeatDelay > 0 then
    { keyboard := { s.counted with repeatDelay := s.repeatDelay - 1 } }
  else s.counted.repeatKey

section Poll

variable {s t : KeyboardState} {delay : Nat} {scancode : Byte}

theorem repeated_congr (line : t.line = s.line) (count : Nat) :
    t.repeated count = s.repeated count := by
  have text := text_of_line line
  have key : t.heldKey = s.heldKey := congrArg KeyboardState.Line.heldKey line
  have char : t.heldKeyChar = s.heldKeyChar := congrArg KeyboardState.Line.heldKeyChar line
  rw [repeated, repeated, text, key, char]

theorem repeated_zero (s : KeyboardState) : s.repeated 0 = s.text := by
  unfold repeated
  split
  · exact List.take_length
  · split
    · rfl
    · rw [Nat.zero_min, List.replicate_zero, List.append_nil]

theorem poll_again (key : s.heldKey ≠ 0) (char : s.heldKeyChar ≠ 0)
    (repeats : s.Repeats scancode) : s.poll scancode = s.cool.again := by
  obtain ⟨heldKey, heldChar, _, _⟩ := s.cool_keys
  have coolKey : s.cool.heldKey ≠ 0 := heldKey.trans_ne key
  have coolChar : s.cool.heldKeyChar ≠ 0 := heldChar.trans_ne char
  generalize taken : s.poll scancode = round
  cases taken ▸ s.poll_round scancode with
  | release _ notRepeats => exact absurd repeats notRepeats
  | hold _ _ _ _ =>
      unfold hold again
      dsimp only
      rw [if_pos coolChar]
      rfl
  | press _ notRepeats => exact absurd repeats notRepeats
  | seen _ notRepeats => exact absurd repeats notRepeats
  | idle _ _ =>
      unfold idle again
      rw [if_pos ⟨coolKey, coolChar⟩]
      rfl

theorem repeatKey_delay : s.repeatKey.keyboard.repeatDelay = keyRepeatRate := by
  have same : s.repeatKey.keyboard.repeatDelay =
      if s.repeatEdit.showCursor.keyboard.keyHoldTime > keyRepeatAccelerationThreshold then
        keyRepeatFastRate else keyRepeatRate := rfl
  rw [same]
  exact ite_self _

theorem repeatEdit_text (lower : 0 ≤ s.bufferPos) : s.repeatEdit.keyboard.text =
    if s.heldKey = backspaceScancode then s.text.dropLast
    else if s.heldKeyChar ≠ backspaceChar ∧ s.bufferPos < 255 then s.text ++ [s.heldKeyChar]
    else s.text := by
  unfold repeatEdit
  dsimp only
  split
  · exact eraseChar_text (p := Poll.hideCursor { keyboard := s }) lower
  · split
    · exact typeChar_text (p := Poll.hideCursor { keyboard := s }) lower _
    · rfl

/-- A repeat is the first one of those to come. -/
theorem repeatKey_repeated (lower : 0 ≤ s.bufferPos) (count : Nat) :
    s.repeatKey.keyboard.repeated count = s.repeated (count + 1) := by
  obtain ⟨key, char⟩ := s.repeatKey_keys
  have length := text_length s
  rw [repeated, repeated, key, char, repeatKey_text, repeatEdit_text lower]
  split
  · rw [List.dropLast_eq_take, List.take_take, List.length_take]
    congr 1
    omega
  · split
    · next erases => rw [if_neg fun both => both.1 erases]
    · next other =>
        split
        · next types =>
            have room : min (count + 1) (255 - s.text.length) =
                min count (255 - (s.text.length + 1)) + 1 := by
              have bound := types.2
              omega
            rw [List.length_append, List.length_singleton, room, List.replicate_succ,
              List.append_assoc, List.singleton_append]
        · next stays =>
            have full : 255 - s.text.length = 0 := by
              have bound : ¬ s.bufferPos < 255 := fun room => stays ⟨other, room⟩
              omega
            rw [full, Nat.min_zero, Nat.min_zero]

/-- One poll: the delay is counted down, or the key is repeated and the delay begins again. -/
theorem Holding.poll (holding : s.Holding delay) (repeats : s.Repeats scancode) :
    (s.poll scancode).entered = false ∧
      (s.poll scancode).keyboard.heldKey = s.heldKey ∧
      match delay with
      | 0 => (s.poll scancode).keyboard.Holding keyRepeatRate.toNat ∧
          ∀ count, (s.poll scancode).keyboard.repeated count = s.repeated (count + 1)
      | delay + 1 => (s.poll scancode).keyboard.Holding delay ∧
          ∀ count, (s.poll scancode).keyboard.repeated count = s.repeated count := by
  obtain ⟨key, char, _, cooled⟩ := s.cool_keys
  have safe := poll_safe holding.safe scancode
  have kept : LineSafe (s.poll scancode).keyboard [] :=
    ⟨safe.lower, safe.upper, safe.filled, fun _ none => nomatch none⟩
  rw [poll_again holding.key holding.char repeats] at kept ⊢
  cases delay with
  | zero =>
      have due : ¬ s.cool.repeatDelay > 0 := by
        rw [cooled, holding.delay]
        decide
      have fires : s.cool.again = s.cool.counted.repeatKey := if_neg due
      have lower : 0 ≤ s.cool.bufferPos := s.cool_same.1 ▸ holding.safe.lower
      obtain ⟨sameKey, sameChar⟩ := s.cool.counted.repeatKey_keys
      rw [fires] at kept ⊢
      refine ⟨repeatKey_entered _, sameKey.trans key, ⟨kept, ?_, ?_, repeatKey_delay⟩, ?_⟩
      · rw [sameKey]
        exact key.trans_ne holding.key
      · rw [sameChar]
        exact char.trans_ne holding.char
      · intro count
        rw [repeatKey_repeated (s := s.cool.counted) lower]
        exact repeated_congr s.cool_line (count + 1)
  | succ delay =>
      have positive : s.cool.repeatDelay > 0 := by
        rw [cooled, holding.delay]
        omega
      have counts : s.cool.again =
          { keyboard := { s.cool.counted with repeatDelay := s.cool.repeatDelay - 1 } } :=
        if_pos positive
      rw [counts] at kept ⊢
      refine ⟨rfl, key, ⟨kept, key.trans_ne holding.key, char.trans_ne holding.char, ?_⟩, ?_⟩
      · change s.cool.repeatDelay - 1 = _
        rw [cooled, holding.delay]
        omega
      · exact fun count => repeated_congr s.cool_line count

end Poll

end KeyboardState

open KeyboardState in
/-- While nothing but the held key or an idle port is polled, the line is not ended, and its text
is the one after the repeats that are due: the first when the delay is over and then one every
`KEY_REPEAT_RATE + 1` polls, as far as there is room, however long the key is held. -/
theorem held_key_repeats {s : Session} {delay : Nat} (polling : s.phase = .polling)
    (holding : s.keyboard.Holding delay) {bytes : List Byte}
    (seen : ∀ byte ∈ bytes, s.keyboard.Repeats byte) :
    (run Session.feed s bytes).phase = .polling ∧
      (run Session.feed s bytes).keyboard.text =
        s.keyboard.repeated (repeatsIn delay bytes.length) := by
  induction bytes generalizing s delay with
  | nil =>
      rw [List.length_nil, repeatsIn_zero, repeated_zero]
      exact ⟨polling, rfl⟩
  | cons byte rest ih =>
      obtain ⟨goesOn, key, later⟩ := holding.poll (seen byte List.mem_cons_self)
      obtain ⟨phase, keyboard⟩ := feed_polling polling goesOn
      have seenLater : ∀ other ∈ rest, (s.feed byte).keyboard.Repeats other := by
        intro other member
        have before := seen other (List.mem_cons_of_mem byte member)
        rw [keyboard, Repeats, key]
        exact before
      rw [← keyboard] at later
      cases delay with
      | zero =>
          obtain ⟨holds, repeats⟩ := later
          rw [List.length_cons, repeatsIn_due, ← repeats]
          exact ih phase holds seenLater
      | succ delay =>
          obtain ⟨holds, repeats⟩ := later
          rw [List.length_cons, repeatsIn_wait, ← repeats]
          exact ih phase holds seenLater

/-- The key of the letter A after its press, polled again with idle ports in between. -/
theorem held_key_repeats_letter :
    ∃ s, s = run Session.step (Session.init coolingSession.keyboard) [.call, .byte 0x1E] ∧
      (run Session.feed s [0x1E, 0, 0, 0x1E]).phase = .polling ∧
      (run Session.feed s [0x1E, 0, 0, 0x1E]).keyboard.text =
        s.keyboard.repeated (repeatsIn 10000 4) := by
  have safe := (always_of_invariant Session.step_safe (Session.init_safe coolingSession.keyboard)
    [.call, .byte 0x1E]).last
  have facts : ∀ s, s = run Session.step (Session.init coolingSession.keyboard)
      [.call, .byte 0x1E] → s.phase = .polling ∧ s.keyboard.heldKey ≠ 0 ∧
        s.keyboard.heldKeyChar ≠ 0 ∧ s.keyboard.repeatDelay = (10000 : Nat) ∧
        ∀ byte ∈ ([0x1E, 0, 0, 0x1E] : List Byte), s.keyboard.Repeats byte := by
    intro s reached
    rw [reached]
    decide +kernel
  obtain ⟨polling, key, char, delay, seen⟩ := facts _ rfl
  refine ⟨_, rfl, ?_⟩
  generalize run Session.step (Session.init coolingSession.keyboard) [.call, .byte 0x1E] = s
    at safe polling key char delay seen
  have line : LineSafe s.keyboard [] :=
    ⟨safe.line.lower, safe.line.upper, safe.line.filled, fun _ none => nomatch none⟩
  exact held_key_repeats polling ⟨line, key, char, delay⟩ seen

end SimpleOS
