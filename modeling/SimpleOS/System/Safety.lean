import SimpleOS.Properties.InputBuffer
import SimpleOS.Properties.ScreenSafety
import SimpleOS.System.Commands

/-!
# Safety of the running system

From `kernel_main` on, for every sequence of bytes of the keyboard port: no
write outside the input buffer, no access outside the screen, a driver that
always waits for more, well-formed command lines, and a kernel process that
nothing typed can end.
-/

namespace SimpleOS

open Library.ByteMemory Library.GuardedRun

namespace System

section Steps

variable (image : Image) (y : System) (input : Input)

/-- The line that `keyboard_get_input` returns in a step, if any. -/
def line? : Option CString :=
  if y.mode = .shell ∨ y.mode = .keytest then
    let y := y.drive (.byte input.byte)
    if y.session.phase = .returned then some y.session.keyboard.string else none
  else none

@[simp] theorem drive_kernel (event : Session.Event) : (y.drive event).kernel = y.kernel := rfl
@[simp] theorem drive_mode (event : Session.Event) : (y.drive event).mode = y.mode := rfl
@[simp] theorem display_kernel (calls : List Vga.Call) : (y.display calls).kernel = y.kernel := rfl
@[simp] theorem display_mode (calls : List Vga.Call) : (y.display calls).mode = y.mode := rfl
@[simp] theorem display_session (calls : List Vga.Call) :
    (y.display calls).session = y.session := rfl
@[simp] theorem prompt_kernel : y.prompt.kernel = y.kernel := rfl
@[simp] theorem prompt_mode : y.prompt.mode = y.mode := rfl
@[simp] theorem keytestPrompt_kernel : y.keytestPrompt.kernel = y.kernel := rfl
@[simp] theorem keytestPrompt_mode : y.keytestPrompt.mode = y.mode := rfl

variable {y input}

/-- A step is a step of the driver, and the processing of the line it returns. -/
theorem step_some {line : CString} (reads : y.line? input = some line) :
    y.step image input = (y.drive (.byte input.byte)).returned image input line ∧
      (y.mode = .shell ∨ y.mode = .keytest) ∧
      (y.drive (.byte input.byte)).session.phase = .returned ∧
      (y.drive (.byte input.byte)).session.keyboard.string = line := by
  unfold line? at reads
  split at reads
  · next waiting =>
      dsimp only at reads
      split at reads
      · next returned =>
          cases reads
          refine ⟨?_, waiting, returned, rfl⟩
          rw [step, if_pos waiting]
          exact if_pos returned
      · cases reads
  · cases reads

theorem step_none (nothing : y.line? input = none) :
    y.step image input = y ∧ ¬ (y.mode = .shell ∨ y.mode = .keytest) ∨
      y.step image input = y.drive (.byte input.byte) ∧
        (y.drive (.byte input.byte)).session.phase ≠ .returned := by
  unfold line? at nothing
  split at nothing
  · next waiting =>
      dsimp only at nothing
      split at nothing
      · cases nothing
      · next runs =>
          refine Or.inr ⟨?_, runs⟩
          rw [step, if_pos waiting]
          exact if_neg runs
  · next stopped => exact Or.inl ⟨if_neg stopped, stopped⟩

end Steps

/-! ## The invariant -/

/-- The kernel is attended, the buffer is safe, and a system that is followed waits for input. -/
structure Sound (image : Image) (y : System) : Prop where
  kernel : y.kernel.Attended image
  session : y.session.Safe
  waits : y.mode = .shell ∨ y.mode = .keytest → y.session.phase ≠ .returned

section Sound

variable {image : Image} {y : System}

/-- Whether the calls of the screen are kept does not matter to the buffer. -/
theorem safe_of_calls {s : Session} (safe : s.Safe) (calls : List Vga.Call) :
    Session.Safe { s with calls } := ⟨safe.line, safe.ended⟩

theorem drive_safe (safe : y.session.Safe) (event : Session.Event) :
    (y.drive event).session.Safe :=
  Session.step_safe _ event (safe_of_calls safe [])

/-- A call of the driver leaves it running. -/
theorem call_phase (s : Session) : s.call.phase ≠ .returned := by
  unfold Session.call
  split
  · exact fun same => nomatch same
  · next running => exact running

theorem prompt_sound (kernel : y.kernel.Attended image) (safe : y.session.Safe) :
    y.prompt.Sound image :=
  ⟨kernel, drive_safe safe .call, fun _ => call_phase _⟩

theorem keytestPrompt_sound (kernel : y.kernel.Attended image) (safe : y.session.Safe) :
    y.keytestPrompt.Sound image :=
  ⟨kernel, drive_safe safe .call, fun _ => call_phase _⟩

theorem execute_sound (kernel : y.kernel.Attended image) (safe : y.session.Safe) (input : Input)
    (command : CString) : (y.execute image input command).Sound image := by
  have finished := kernel.processCommand input.before input.saved command
  unfold execute
  split
  · exact ⟨kernel, safe, fun follows => by rcases follows with same | same <;> cases same⟩
  · dsimp only
    split
    · exact keytestPrompt_sound kernel safe
    · split
      · next transfers =>
          refine ⟨kernel.transfer transfers, safe, fun follows => ?_⟩
          rcases follows with same | same <;> cases same
      · exact prompt_sound finished safe
    · exact prompt_sound finished safe

theorem testLine_sound (kernel : y.kernel.Attended image) (safe : y.session.Safe) (line : CString) :
    (y.testLine line).Sound image := by
  unfold testLine
  split
  · exact prompt_sound kernel safe
  · exact keytestPrompt_sound kernel safe

/-- Every step keeps the invariant. -/
theorem step_sound (y : System) (input : Input) (sound : y.Sound image) :
    (y.step image input).Sound image := by
  cases reads : y.line? input with
  | none =>
      rcases step_none image reads with ⟨same, _⟩ | ⟨driven, runs⟩
      · exact same.symm ▸ sound
      · rw [driven]
        exact ⟨sound.kernel, drive_safe sound.session _, fun _ => runs⟩
  | some line =>
      obtain ⟨taken, waiting, _, _⟩ := step_some image reads
      have safe := drive_safe sound.session (.byte input.byte)
      rw [taken]
      unfold returned
      rcases waiting with shell | keytest
      · rw [drive_mode, shell]
        dsimp only
        split
        · exact execute_sound (y := y.drive _) sound.kernel safe input line
        · exact prompt_sound (y := y.drive _) sound.kernel safe
      · rw [drive_mode, keytest]
        exact testLine_sound (y := y.drive _) sound.kernel safe line

theorem boot_sound (image : Image) (keyboard : KeyboardState) :
    (boot image keyboard).Sound image :=
  prompt_sound (Kernel.boot_attended image) (Session.init_safe keyboard)

/-- A line has no NUL in it and fits into the buffer. -/
theorem line_wellFormed (sound : y.Sound image) {input : Input} {line : CString}
    (reads : y.line? input = some line) : 0 ∉ line ∧ line.length ≤ 255 := by
  obtain ⟨_, _, returned, same⟩ := step_some image reads
  have buffer := (drive_safe sound.session (.byte input.byte)).buffer
  have length := buffer.length returned
  rw [same] at length
  refine ⟨fun inside => ?_, ?_⟩
  · rw [← same, KeyboardState.string] at inside
    have nonzero := List.mem_takeWhile_imp inside
    exact of_decide_eq_true nonzero rfl
  · have upper := buffer.upper
    omega

end Sound

/-! ## Memory -/

/-- Nothing was written outside the input buffer and nothing touched outside the screen; the driver
waits for input as long as the system is followed. -/
structure Secure (memory : Nat → Cell) (y : System) : Prop where
  position : 0 ≤ y.session.keyboard.bufferPos ∧ y.session.keyboard.bufferPos ≤ 255
  writes : ∀ index ∈ y.session.writes, 0 ≤ index ∧ index ≤ 255
  screen : (y.screen memory).Safe
  waits : y.mode = .shell ∨ y.mode = .keytest → y.session.phase ≠ .returned

theorem screen_stays_safe (memory : Nat → Cell) (y : System) : (y.screen memory).Safe :=
  (always_of_invariant Vga.step_safe (Vga.init_safe memory) y.output).last

/-- Whatever bytes arrive, the running system stays inside its buffers, and every line it reads is
free of NUL and at most 255 characters long. -/
theorem system_secure (image : Image) (keyboard : KeyboardState) (memory : Nat → Cell)
    (inputs : List Input) :
    Always (step image) (Secure memory) (boot image keyboard) inputs ∧
      Along (step image)
        (fun y input => ∀ line, y.line? input = some line → 0 ∉ line ∧ line.length ≤ 255)
        (boot image keyboard) inputs := by
  have sound := always_of_invariant step_sound (boot_sound image keyboard) inputs
  constructor
  · rw [always_iff_prefixes] at sound ⊢
    intro taken rest split
    have here := sound taken rest split
    exact ⟨⟨here.session.line.lower, here.session.line.upper⟩, here.session.line.writes,
      screen_stays_safe memory _, here.waits⟩
  · have unguarded : Along (step image) (fun _ _ => True) (boot image keyboard) inputs :=
      along_of_forall _ fun _ _ => trivial
    exact along_of_along (fun y input sound _ => step_sound y input sound)
      (fun y input sound _ line reads => line_wellFormed sound reads) (boot_sound image keyboard)
      unguarded

end System

/-! ## The kernel process -/

/-- The kernel process is found under PID 1 and has not ended; somebody is current, under a PID from
1 to 10; nothing has been allocated. -/
structure Kernel.Presided (s : Kernel) : Prop where
  found : s.processFindByPid 1 = s.kernelProcess
  nonnull : s.kernelProcess ≠ null
  lives : (s.process s.kernelProcess).state ≠ .terminated
  current : s.currentProcess ≠ null
  getpid : 1 ≤ s.sysGetpid.toNat ∧ s.sysGetpid.toNat ≤ 10
  created : s.testCount ≤ 10
  heap : s.heapCurrent = heapStart

theorem Kernel.Attended.presided {image : Image} {s : Kernel} (attended : s.Attended image) :
    s.Presided := by
  have coherent := attended.coherent
  refine ⟨(coherent.found_kernel_iff 1).mpr rfl, coherent.kernel_ne_null, attended.kernel,
    attended.current, ?_, coherent.count, congrArg Prod.snd attended.creation⟩
  obtain ⟨index, bound, _, pid⟩ := coherent.active_pid (coherent.current attended.current)
  have count := coherent.count
  have same : s.sysGetpid.toNat = index + 1 := by
    rw [Kernel.sysGetpid, if_pos attended.current]
    exact pid
  omega

/-- Nothing that is typed ends the kernel process, takes it out of the table, leaves nobody current
or allocates memory. -/
theorem System.kernel_presided (image : Image) (keyboard : KeyboardState) (inputs : List Input) :
    Always (System.step image) (fun y => y.kernel.Presided) (System.boot image keyboard)
      inputs := by
  have sound := always_of_invariant System.step_sound (System.boot_sound image keyboard) inputs
  rw [always_iff_prefixes] at sound ⊢
  exact fun taken rest split => (sound taken rest split).kernel.presided

end SimpleOS
