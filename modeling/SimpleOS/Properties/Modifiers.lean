import SimpleOS.Drivers.PhysicalKeyboard
import SimpleOS.Properties.InputBuffer

/-!
# The modifier flags

The driver keeps one flag for both Shift keys, tells a repeat from a press by
the last scancode, which every release forgets, and throws three bytes away
after Enter.  The flags are exact as long as no event of a modifier meets one
of these.
-/

namespace SimpleOS

open Library.ByteMemory Library.GuardedRun

namespace PhysicalKeyboard

/-- A key with that modifier is down. -/
def Down (w : PhysicalKeyboard) (modifier : Modifier) : Prop :=
  ∃ key ∈ w.held, key.modifier? = some modifier

/-- So is one other than the given key. -/
def OtherDown (w : PhysicalKeyboard) (key : PhysicalKey) (modifier : Modifier) : Prop :=
  ∃ other ∈ w.held.erase key, other.modifier? = some modifier

instance (w : PhysicalKeyboard) (modifier : Modifier) : Decidable (w.Down modifier) :=
  inferInstanceAs (Decidable (∃ key ∈ w.held, _ = _))

instance (w : PhysicalKeyboard) (key : PhysicalKey) (modifier : Modifier) :
    Decidable (w.OtherDown key modifier) :=
  inferInstanceAs (Decidable (∃ other ∈ w.held.erase key, _ = _))

/-- The flags say which modifier keys are down and how often Caps Lock was pressed. -/
structure Exact (w : PhysicalKeyboard) : Prop where
  shift : w.session.keyboard.shiftPressed = true ↔
    ∃ key ∈ w.held, key.Is leftShiftScancode ∨ key.Is rightShiftScancode
  ctrl : w.session.keyboard.ctrlPressed = true ↔ ∃ key ∈ w.held, key.Is leftCtrlScancode
  alt : w.session.keyboard.altPressed = true ↔ ∃ key ∈ w.held, key.Is leftAltScancode
  capsLock : w.session.keyboard.capsLockOn = decide (w.capsPresses % 2 = 1)

/-- The next byte is polled by the loop, and not thrown away behind Enter. -/
def Heard (w : PhysicalKeyboard) : Prop := ∀ left, w.session.phase ≠ .draining left

/-- A press of the modifier makes no difference: a key with it is down, or for Caps Lock, the driver
takes it for a repeat. -/
def Settled (w : PhysicalKeyboard) (modifier : Modifier) : Prop :=
  if modifier = .capsLock then w.session.keyboard.lastScancode = capsLockScancode
  else w.Down modifier

/--
The driver gets the event right.  An extended key counts by its code alone,
which may be that of a modifier.
-/
def Clear (w : PhysicalKeyboard) : PhysicalEvent → Prop
  | .idle => True
  | .stale => w.Heard → ∀ modifier, (modifier? w.port = some modifier → w.Settled modifier) ∧
      (modifier? (w.port - 0x80) = some modifier → modifier ≠ .capsLock → ¬ w.Down modifier)
  | .escape => True
  | .down key => ∀ modifier, modifier? key.key.code = some modifier →
      if key.extended then w.Heard → w.Settled modifier
      else w.Heard ∨ (modifier ≠ .capsLock ∧ w.Down modifier)
  | .again key => ∀ modifier, modifier? key.key.code = some modifier →
      w.Heard → w.Settled modifier
  | .up key => ∀ modifier, modifier? key.key.code = some modifier → modifier ≠ .capsLock →
      if key.extended then w.Heard → ¬ w.Down modifier
      else (w.Heard ↔ ¬ w.OtherDown key modifier)

/-! ## What the flags should be -/

/-- The flags that are exact. -/
def truth (w : PhysicalKeyboard) : Modifier → Bool
  | .capsLock => decide (w.capsPresses % 2 = 1)
  | modifier => decide (w.Down modifier)

theorem truth_of_ne (w : PhysicalKeyboard) {modifier : Modifier} (other : modifier ≠ .capsLock) :
    w.truth modifier = decide (w.Down modifier) := by
  cases modifier with
  | capsLock => exact absurd rfl other
  | _ => rfl

theorem modifier?_shift (code : Byte) :
    modifier? code = some .shift ↔ code = leftShiftScancode ∨ code = rightShiftScancode := by
  revert code
  decide +kernel

theorem modifier?_ctrl (code : Byte) : modifier? code = some .ctrl ↔ code = leftCtrlScancode := by
  revert code
  decide +kernel

theorem modifier?_alt (code : Byte) : modifier? code = some .alt ↔ code = leftAltScancode := by
  revert code
  decide +kernel

theorem modifier?_capsLock (code : Byte) :
    modifier? code = some .capsLock ↔ code = capsLockScancode := by
  revert code
  decide +kernel

theorem modifier?_release (code : Byte) (released : code ≥ 0x80) : modifier? code = none := by
  revert code
  decide +kernel

theorem modifier?_sub (code : Byte) (pressed : ¬ code ≥ 0x80) :
    modifier? (code - 0x80) = none := by
  revert code
  decide +kernel

theorem isModifier_iff (code : Byte) : IsModifier code ↔ modifier? code ≠ none := by
  revert code
  decide +kernel

theorem modifier?_of_extended {key : PhysicalKey} (extended : key.extended = true) :
    key.modifier? = none := if_pos extended

theorem modifier?_of_plain {key : PhysicalKey} (plain : key.extended = false) :
    key.modifier? = SimpleOS.modifier? key.key.code := by
  rw [PhysicalKey.modifier?, plain]
  rfl

/-- The key is a given modifier if it has a byte of its own, and that byte is the modifier's. -/
theorem key_modifier?_iff (key : PhysicalKey) (modifier : Modifier) :
    key.modifier? = some modifier ↔
      key.extended = false ∧ SimpleOS.modifier? key.key.code = some modifier := by
  cases extended : key.extended with
  | true => simp [modifier?_of_extended extended]
  | false => simp [modifier?_of_plain extended]

theorem exact_iff (w : PhysicalKeyboard) : w.Exact ↔ w.session.keyboard.flag = w.truth := by
  have flags (first second : Bool) (told : Prop) [Decidable told] (same : second = decide told) :
      (first = true ↔ told) ↔ first = second := by
    rw [same]
    cases first <;> simp
  have shift : (∃ key ∈ w.held, key.Is leftShiftScancode ∨ key.Is rightShiftScancode) ↔
      w.Down .shift := by
    simp only [Down, key_modifier?_iff, modifier?_shift, PhysicalKey.Is, ← and_or_left]
  have ctrl : (∃ key ∈ w.held, key.Is leftCtrlScancode) ↔ w.Down .ctrl := by
    simp only [Down, key_modifier?_iff, modifier?_ctrl, PhysicalKey.Is]
  have alt : (∃ key ∈ w.held, key.Is leftAltScancode) ↔ w.Down .alt := by
    simp only [Down, key_modifier?_iff, modifier?_alt, PhysicalKey.Is]
  constructor
  · intro exact
    funext modifier
    cases modifier with
    | shift => exact (flags _ _ _ rfl).mp (exact.shift.trans shift)
    | ctrl => exact (flags _ _ _ rfl).mp (exact.ctrl.trans ctrl)
    | alt => exact (flags _ _ _ rfl).mp (exact.alt.trans alt)
    | capsLock => exact exact.capsLock
  · intro same
    constructor
    · exact ((flags _ _ _ rfl).mpr (congrFun same .shift)).trans shift.symm
    · exact ((flags _ _ _ rfl).mpr (congrFun same .ctrl)).trans ctrl.symm
    · exact ((flags _ _ _ rfl).mpr (congrFun same .alt)).trans alt.symm
    · exact congrFun same .capsLock

/-! ## What an event does to the truth -/

section Moves

variable {w : PhysicalKeyboard} {key : PhysicalKey} {modifier : Modifier}

theorem down_insert :
    (w.move (.down key)).Down modifier ↔ key.modifier? = some modifier ∨ w.Down modifier := by
  simp only [Down, move, Finset.exists_mem_insert]

theorem is_capsLock_iff (key : PhysicalKey) :
    key.Is capsLockScancode ↔ key.modifier? = some .capsLock := by
  rw [key_modifier?_iff, modifier?_capsLock, PhysicalKey.Is]

/-- A press changes the truth as the driver changes its flags. -/
theorem truth_down :
    (w.move (.down key)).truth = KeyFlags.pressFlag w.truth key.modifier? := by
  funext modifier
  rw [KeyFlags.pressFlag_apply]
  by_cases caps : modifier = .capsLock
  · subst caps
    simp only [if_true, truth, move, is_capsLock_iff]
    split
    · rw [← decide_not, decide_eq_decide]
      omega
    · rfl
  · rw [truth_of_ne _ caps, truth_of_ne _ caps, if_neg caps]
    split
    · next pressed => exact decide_eq_true (down_insert.mpr (Or.inl pressed))
    · next other => exact decide_eq_decide.mpr (down_insert.trans (or_iff_right other))

theorem otherDown_iff (different : key.modifier? ≠ some modifier) :
    w.OtherDown key modifier ↔ w.Down modifier := by
  constructor
  · rintro ⟨other, member, same⟩
    exact ⟨other, Finset.mem_of_mem_erase member, same⟩
  · rintro ⟨other, member, same⟩
    refine ⟨other, Finset.mem_erase.mpr ⟨?_, member⟩, same⟩
    rintro rfl
    exact different same

/-- After a release, the truth about its modifier is whether another key with it is down. -/
theorem truth_up :
    (w.move (.up key)).truth modifier =
      if key.modifier? = some modifier ∧ modifier ≠ .capsLock then
        decide (w.OtherDown key modifier)
      else w.truth modifier := by
  by_cases caps : modifier = .capsLock
  · subst caps
    rw [if_neg fun both => both.2 rfl]
    rfl
  · have after : (w.move (.up key)).truth modifier = decide (w.OtherDown key modifier) :=
      truth_of_ne _ caps
    rw [after]
    split
    · rfl
    · next other =>
      rw [truth_of_ne w caps]
      exact decide_eq_decide.mpr (otherDown_iff fun same => other ⟨same, caps⟩)

/-- A modifier key that is down makes the truth. -/
theorem truth_of_held (held : key ∈ w.held) (same : key.modifier? = some modifier)
    (other : modifier ≠ .capsLock) : w.truth modifier = true := by
  rw [truth_of_ne w other]
  exact decide_eq_true ⟨key, held, same⟩

/-- There is one Caps Lock key. -/
theorem capsLock_unique {first second : PhysicalKey} (one : first.modifier? = some .capsLock)
    (two : second.modifier? = some .capsLock) : first = second := by
  obtain ⟨plainFirst, codeFirst⟩ := (is_capsLock_iff first).mpr one
  obtain ⟨plainSecond, codeSecond⟩ := (is_capsLock_iff second).mpr two
  cases first
  cases second
  rw [PhysicalKey.mk.injEq]
  exact ⟨Key.ext (codeFirst.trans codeSecond.symm), plainFirst.trans plainSecond.symm⟩

theorem move_session (event : PhysicalEvent) : (w.move event).session = w.session := by
  cases event <;> rfl

end Moves

/-! ## What a poll does to the flags -/

section Polls

variable {w : PhysicalKeyboard}

/-- A byte that is heard is one round of the loop. -/
theorem poll_heard (heard : w.Heard) (byte : Byte) :
    (w.poll byte).session.keyboard.keyFlags = w.session.keyboard.keyFlags.poll byte := by
  unfold poll Session.call
  cases phase : w.session.phase with
  | polling =>
      simp only [Session.feed, phase]
      exact KeyboardState.poll_keyFlags _ byte
  | draining left => exact absurd phase (heard left)
  | returned => exact KeyboardState.poll_keyFlags _ byte

/-- A byte that is thrown away changes no flag; the last one clears both scancodes. -/
theorem poll_drained (drained : ¬ w.Heard) (byte : Byte) :
    (w.poll byte).session.keyboard.flag = w.session.keyboard.flag ∧
      ((w.poll byte).session.keyboard.lastScancode = w.session.keyboard.lastScancode ∨
        (w.poll byte).session.keyboard.lastScancode = 0) ∧
      ((w.poll byte).session.keyboard.heldKey = w.session.keyboard.heldKey ∨
        (w.poll byte).session.keyboard.heldKey = 0) := by
  unfold poll Session.call
  cases phase : w.session.phase with
  | polling => exact absurd (fun left same => by rw [phase] at same; cases same) drained
  | returned => exact absurd (fun left same => by rw [phase] at same; cases same) drained
  | draining left =>
      cases left with
      | zero =>
          simp only [Session.feed, phase]
          exact ⟨rfl, Or.inr rfl, Or.inr rfl⟩
      | succ left =>
          simp only [Session.feed, phase]
          exact ⟨trivial, Or.inl trivial, Or.inl trivial⟩

end Polls

/-! ## One event -/

section Release

variable {w : PhysicalKeyboard} (same : w.session.keyboard.flag = w.truth)

include same

theorem release_flag (code : Byte) : (w.session.keyboard.keyFlags.release code).flag =
    KeyFlags.releaseFlag w.truth (SimpleOS.modifier? code) := by
  rw [← same]
  rfl

/-- A release that is heard leaves exact flags exact if its modifier is up. -/
theorem release_heard_iff (code : Byte) :
    (w.session.keyboard.keyFlags.release code).flag = w.truth ↔
      ∀ modifier, SimpleOS.modifier? code = some modifier → modifier ≠ .capsLock →
        ¬ w.Down modifier := by
  rw [release_flag same, KeyFlags.releaseFlag_eq_iff]
  refine forall_congr' fun modifier => imp_congr_right fun _ => imp_congr_right fun other => ?_
  rw [truth_of_ne w other, decide_eq_false_iff_not]

end Release

/-- An event that is thrown away must have changed nothing. -/
theorem drained_exact_iff {w : PhysicalKeyboard} {event : PhysicalEvent}
    (possible : w.Possible event) (drained : ¬ w.Heard) :
    w.truth = (w.move event).truth ↔ w.Clear event := by
  cases event with
  | idle => exact iff_of_true rfl trivial
  | stale => exact iff_of_true rfl fun heard => absurd heard drained
  | escape => exact iff_of_true rfl trivial
  | again key => exact iff_of_true rfl fun _ _ heard => absurd heard drained
  | down key =>
      rw [truth_down, eq_comm]
      cases extended : key.extended with
      | true =>
          rw [modifier?_of_extended extended]
          apply iff_of_true
          · rfl
          · intro modifier _
            rw [if_pos extended]
            exact fun heard => absurd heard drained
      | false =>
          rw [modifier?_of_plain extended, KeyFlags.pressFlag_eq_iff]
          refine forall_congr' fun modifier => imp_congr_right fun _ => ?_
          rw [if_neg (Bool.eq_false_iff.mp extended), or_iff_right drained]
          refine and_congr_right fun other => ?_
          rw [truth_of_ne w other, decide_eq_true_iff]
  | up key =>
      rw [funext_iff]
      refine forall_congr' fun modifier => ?_
      rw [truth_up]
      cases extended : key.extended with
      | true =>
          rw [modifier?_of_extended extended, if_pos rfl]
          apply iff_of_true
          · exact (if_neg fun both => nomatch both.1).symm
          · exact fun _ _ heard => absurd heard drained
      | false =>
          rw [modifier?_of_plain extended, if_neg Bool.false_ne_true,
            iff_false_left drained, not_not, ← and_imp]
          split
          · next changed =>
            have isModifier := (modifier?_of_plain extended).trans changed.1
            rw [truth_of_held possible isModifier changed.2, eq_comm, decide_eq_true_iff]
            exact (imp_iff_right changed).symm
          · next unchanged => exact iff_of_true rfl fun changed => absurd changed unchanged

/-- The scancodes the driver remembers fit the keys that are down. -/
structure Follows (w : PhysicalKeyboard) : Prop where
  heldKey : SimpleOS.modifier? w.session.keyboard.heldKey = none
  last : ∀ modifier, SimpleOS.modifier? w.session.keyboard.lastScancode = some modifier →
    w.Down modifier
  drained : ¬ w.Heard → SimpleOS.modifier? w.session.keyboard.lastScancode = none

section Step

variable {w : PhysicalKeyboard} (follows : w.Follows)
  (same : w.session.keyboard.flag = w.truth)

include follows

theorem Follows.settled {modifier : Modifier}
    (last : SimpleOS.modifier? w.session.keyboard.lastScancode = some modifier) :
    w.Settled modifier := by
  unfold Settled
  split
  · next caps => exact (modifier?_capsLock _).mp (caps ▸ last)
  · exact follows.last modifier last

include same

/-- A press byte that is heard leaves exact flags exact if its modifier is settled. -/
theorem press_heard_iff (key : Key) :
    (w.session.keyboard.keyFlags.poll key.code).flag = w.truth ↔
      ∀ modifier, SimpleOS.modifier? key.code = some modifier → w.Settled modifier := by
  rw [KeyFlags.poll_down]
  change KeyFlags.flag (if key.code = w.session.keyboard.heldKey ∨
    key.code = w.session.keyboard.lastScancode then _ else _) = _ ↔ _
  by_cases held : key.code = w.session.keyboard.heldKey
  · rw [if_pos (Or.inl held)]
    refine iff_of_true same fun modifier isModifier => ?_
    rw [held, follows.heldKey] at isModifier
    cases isModifier
  · by_cases seen : key.code = w.session.keyboard.lastScancode
    · rw [if_pos (Or.inr seen)]
      exact iff_of_true same fun modifier isModifier => follows.settled (seen ▸ isModifier)
    · rw [if_neg (not_or.mpr ⟨held, seen⟩)]
      change KeyFlags.pressFlag w.session.keyboard.flag _ = w.truth ↔ _
      rw [same, KeyFlags.pressFlag_eq_iff]
      refine forall_congr' fun modifier => imp_congr_right fun isModifier => ?_
      unfold Settled
      split
      · next caps =>
        have code := (modifier?_capsLock _).mp (caps ▸ isModifier)
        exact iff_of_false (fun both => both.1 caps) fun last => seen (code.trans last.symm)
      · next other =>
        rw [truth_of_ne w other, decide_eq_true_iff]
        exact and_iff_right other

/-- A byte that comes with no event leaves them exact if it says what is so already. -/
theorem byte_heard_iff (scancode : Byte) :
    (w.session.keyboard.keyFlags.poll scancode).flag = w.truth ↔
      ∀ modifier, (SimpleOS.modifier? scancode = some modifier → w.Settled modifier) ∧
        (SimpleOS.modifier? (scancode - 0x80) = some modifier → modifier ≠ .capsLock →
          ¬ w.Down modifier) := by
  cases scancode_cases scancode with
  | inl idle =>
      rw [idle, KeyFlags.poll_idle]
      refine iff_of_true same fun modifier => ⟨fun isModifier => ?_, fun isModifier => ?_⟩
      · exact absurd isModifier (by cases modifier <;> decide)
      · exact absurd isModifier (by cases modifier <;> decide)
  | inr sent =>
      cases sent with
      | inl down =>
          obtain ⟨key, rfl⟩ := down
          refine (press_heard_iff follows same key).trans (forall_congr' fun modifier => ?_)
          rw [modifier?_sub key.code key.not_release]
          exact (and_iff_left fun isModifier => nomatch isModifier).symm
      | inr released =>
          rw [KeyFlags.poll_release _ released]
          refine (release_heard_iff same _).trans (forall_congr' fun modifier => ?_)
          rw [modifier?_release scancode released]
          exact (and_iff_right fun isModifier => nomatch isModifier).symm

/-- A key with a byte of its own that goes down and is heard is followed. -/
theorem down_heard {key : PhysicalKey} (plain : key.extended = false) (new : key ∉ w.held) :
    (w.session.keyboard.keyFlags.poll key.key.code).flag =
      KeyFlags.pressFlag w.truth (SimpleOS.modifier? key.key.code) := by
  rw [KeyFlags.poll_down]
  change KeyFlags.flag (if key.key.code = w.session.keyboard.heldKey ∨
    key.key.code = w.session.keyboard.lastScancode then _ else _) = _
  by_cases held : key.key.code = w.session.keyboard.heldKey
  · rw [if_pos (Or.inl held), held, follows.heldKey]
    exact same
  · by_cases seen : key.key.code = w.session.keyboard.lastScancode
    · rw [if_pos (Or.inr seen)]
      refine same.trans ((KeyFlags.pressFlag_eq_iff _ _).mpr fun modifier isModifier => ?_).symm
      -- the driver takes the key for one that is down already
      have down := follows.last modifier (seen ▸ isModifier)
      have other : modifier ≠ .capsLock := by
        rintro rfl
        obtain ⟨pressed, member, isCaps⟩ := down
        have unique := capsLock_unique isCaps ((key_modifier?_iff key _).mpr ⟨plain, isModifier⟩)
        exact new (unique ▸ member)
      exact ⟨other, (truth_of_ne w other).trans (decide_eq_true down)⟩
    · rw [if_neg (not_or.mpr ⟨held, seen⟩)]
      change KeyFlags.pressFlag w.session.keyboard.flag _ = _
      rw [same]

/-- What the flags are after a heard event. -/
theorem heard_exact_iff {event : PhysicalEvent} (possible : w.Possible event) (heard : w.Heard) :
    (w.session.keyboard.keyFlags.poll (w.byte event)).flag = (w.move event).truth ↔
      w.Clear event := by
  have whenHeard {told : Prop} : (w.Heard → told) ↔ told := forall_prop_of_true heard
  cases event with
  | idle =>
      rw [byte, KeyFlags.poll_idle]
      exact iff_of_true same trivial
  | stale =>
      have clear : w.Clear .stale ↔ _ := forall_prop_of_true heard
      rw [clear]
      exact byte_heard_iff follows same w.port
  | escape =>
      rw [byte, escapeByte, KeyFlags.poll_escape]
      exact iff_of_true same trivial
  | again key =>
      refine (press_heard_iff follows same key.key).trans (forall_congr' fun modifier => ?_)
      exact imp_congr_right fun _ => whenHeard.symm
  | down key =>
      cases extended : key.extended with
      | true =>
          rw [truth_down, modifier?_of_extended extended]
          refine (press_heard_iff follows same key.key).trans (forall_congr' fun modifier => ?_)
          rw [if_pos extended]
          exact imp_congr_right fun _ => whenHeard.symm
      | false =>
          rw [truth_down, modifier?_of_plain extended]
          apply iff_of_true
          · exact down_heard follows same extended possible
          · intro modifier _
            rw [if_neg (Bool.eq_false_iff.mp extended)]
            exact Or.inl heard
  | up key =>
      cases extended : key.extended with
      | true =>
          have unchanged : (w.move (.up key)).truth = w.truth := by
            funext modifier
            rw [truth_up, modifier?_of_extended extended]
            exact if_neg fun both => nomatch both.1
          rw [unchanged, byte, KeyFlags.poll_up]
          refine (release_heard_iff same _).trans (forall_congr' fun modifier => ?_)
          rw [if_pos extended, whenHeard]
      | false =>
          rw [byte, KeyFlags.poll_up, release_flag same, funext_iff]
          refine forall_congr' fun modifier => ?_
          rw [KeyFlags.releaseFlag_apply, truth_up, modifier?_of_plain extended,
            if_neg (Bool.eq_false_iff.mp extended), iff_true_left heard, ← and_imp]
          split
          · next changed =>
            rw [eq_comm, decide_eq_false_iff_not]
            exact (imp_iff_right changed).symm
          · next unchanged => exact iff_of_true rfl fun changed => absurd changed unchanged

end Step

theorem poll_truth (w : PhysicalKeyboard) (byte : Byte) : (w.poll byte).truth = w.truth := rfl

theorem heard_move {w : PhysicalKeyboard} (event : PhysicalEvent) :
    (w.move event).Heard ↔ w.Heard := by
  unfold Heard
  rw [move_session]

/-- An event keeps the flags exact if the driver gets it right. -/
theorem step_exact_iff {w : PhysicalKeyboard} (follows : w.Follows) (exact : w.Exact)
    (event : PhysicalEvent) :
    (w.step event).Exact ↔ (w.Possible event → w.Clear event) := by
  have same := (exact_iff w).mp exact
  unfold step
  by_cases possible : w.Possible event
  · rw [if_pos possible, forall_prop_of_true possible, exact_iff, poll_truth]
    by_cases heard : w.Heard
    · have flags := poll_heard ((heard_move event).mpr heard) (w.byte event)
      rw [move_session] at flags
      have flag := congrArg KeyFlags.flag flags
      rw [← heard_exact_iff follows same possible heard]
      exact Eq.congr_left flag
    · obtain ⟨flag, _⟩ := poll_drained (mt (heard_move event).mp heard) (w.byte event)
      rw [flag, move_session, same]
      exact drained_exact_iff possible heard
  · rw [if_neg possible]
    exact iff_of_true exact fun happens => absurd happens possible

/-! ## What the driver remembers -/

/-- The key that repeats is no modifier. -/
theorem poll_heldKey {k : KeyFlags} (held : SimpleOS.modifier? k.heldKey = none) (byte : Byte) :
    SimpleOS.modifier? (k.poll byte).heldKey = none := by
  unfold KeyFlags.poll
  split
  · unfold KeyFlags.release
    dsimp only
    split
    · decide
    · exact held
  · split
    · split
      · exact held
      · split
        · unfold KeyFlags.press
          dsimp only
          split
          · exact held
          · next other => exact not_not.mp (mt (isModifier_iff byte).mpr other)
        · exact held
    · exact held

/-- A line ends with the press of Enter. -/
theorem poll_enter {s : KeyboardState} {scancode : Byte}
    (entered : (s.poll scancode).entered = true) :
    (s.poll scancode).keyboard.lastScancode = enterScancode := by
  generalize taken : s.poll scancode = round at entered ⊢
  cases taken ▸ s.poll_round scancode with
  | release _ _ => cases entered
  | hold _ _ _ _ =>
      rw [KeyboardState.hold_entered] at entered
      cases entered
  | press _ _ =>
      have last := congrArg KeyFlags.lastScancode (s.cool.press_keyFlags scancode)
      exact last.trans (s.cool.press_ends entered).1
  | seen _ _ => cases entered
  | idle _ _ =>
      rw [KeyboardState.idle_entered] at entered
      cases entered

/-- The bytes behind Enter come when no modifier is remembered. -/
theorem poll_starts_drain {w : PhysicalKeyboard} (heard : w.Heard) {byte : Byte}
    (drained : ¬ (w.poll byte).Heard) :
    (w.poll byte).session.keyboard.lastScancode = enterScancode := by
  have entered : ∀ s : Session, s.phase = .polling → ¬ (∀ left, (s.feed byte).phase ≠
      .draining left) → (s.feed byte).keyboard.lastScancode = enterScancode := by
    intro s polling drains
    simp only [Session.feed, polling] at drains ⊢
    apply poll_enter
    by_contra goesOn
    rw [if_neg goesOn] at drains
    apply drains
    intro left same
    cases same
  have calls : w.session.call.phase = .polling := by
    unfold Session.call
    cases phase : w.session.phase with
    | polling => exact phase
    | draining left => exact absurd phase (heard left)
    | returned => rfl
  exact entered w.session.call calls drained

section Remember

variable {w : PhysicalKeyboard} (follows : w.Follows)

include follows

/--
A press remembers a modifier that is down: the driver knew the key, or its
modifier was settled, or it has just gone down.
-/
theorem pressed_down {after : PhysicalKeyboard} {modifier : Modifier} (key : Key)
    (more : w.Down modifier → after.Down modifier)
    (settled : SimpleOS.modifier? key.code = some modifier →
      w.Settled modifier ∨ after.Down modifier)
    (last : SimpleOS.modifier? (w.session.keyboard.keyFlags.poll key.code).lastScancode =
      some modifier) : after.Down modifier := by
  rw [KeyFlags.poll_down] at last
  split at last
  · exact more (follows.last modifier last)
  · next new =>
    change SimpleOS.modifier? key.code = some modifier at last
    cases settled last with
    | inr now => exact now
    | inl before =>
        unfold Settled at before
        split at before
        · next caps =>
          have code := (modifier?_capsLock _).mp (caps ▸ last)
          exact absurd (Or.inr (code.trans before.symm)) new
        · exact more before

/-- After a heard event, the last scancode is that of a modifier only if it is down. -/
theorem last_down {event : PhysicalEvent} (clear : w.Clear event) (heard : w.Heard)
    (modifier : Modifier)
    (last : SimpleOS.modifier? (w.session.keyboard.keyFlags.poll (w.byte event)).lastScancode =
      some modifier) : (w.move event).Down modifier := by
  have none : SimpleOS.modifier? 0 = none := by decide
  cases event with
  | idle =>
      rw [byte, KeyFlags.poll_idle] at last
      exact follows.last modifier last
  | stale =>
      cases scancode_cases w.port with
      | inl idle =>
          rw [byte, idle, KeyFlags.poll_idle] at last
          exact follows.last modifier last
      | inr sent =>
          cases sent with
          | inl down =>
              obtain ⟨key, isKey⟩ := down
              rw [byte, isKey] at last
              apply pressed_down follows key id _ last
              exact fun isModifier => Or.inl ((clear heard modifier).1 (isKey ▸ isModifier))
          | inr released =>
              rw [byte, KeyFlags.poll_release _ released] at last
              exact absurd last (none ▸ nofun)
  | escape =>
      rw [byte, escapeByte, KeyFlags.poll_escape] at last
      exact absurd last (none ▸ nofun)
  | up key =>
      rw [byte, KeyFlags.poll_up] at last
      exact absurd last (none ▸ nofun)
  | again key =>
      apply pressed_down follows key.key id _ last
      exact fun isModifier => Or.inl (clear modifier isModifier heard)
  | down key =>
      apply pressed_down follows key.key (fun down => down_insert.mpr (Or.inr down)) _ last
      intro isModifier
      have right := clear modifier isModifier
      cases extended : key.extended with
      | true =>
          rw [if_pos extended] at right
          exact Or.inl (right heard)
      | false =>
          exact Or.inr (down_insert.mpr (Or.inl ((modifier?_of_plain extended).trans isModifier)))

theorem Follows.next {event : PhysicalEvent} (clear : w.Clear event) :
    ((w.move event).poll (w.byte event)).Follows := by
  by_cases heard : w.Heard
  · have hears := (heard_move event).mpr heard
    have flags := poll_heard hears (w.byte event)
    rw [move_session] at flags
    have held : ((w.move event).poll (w.byte event)).session.keyboard.heldKey = _ :=
      congrArg KeyFlags.heldKey flags
    have last : ((w.move event).poll (w.byte event)).session.keyboard.lastScancode = _ :=
      congrArg KeyFlags.lastScancode flags
    constructor
    · rw [held]
      exact poll_heldKey follows.heldKey (w.byte event)
    · rw [last]
      exact last_down follows clear heard
    · intro drained
      rw [poll_starts_drain hears drained]
      decide
  · obtain ⟨_, last, held⟩ := poll_drained (mt (heard_move event).mp heard) (w.byte event)
    rw [move_session] at last held
    have remembers : SimpleOS.modifier?
        ((w.move event).poll (w.byte event)).session.keyboard.lastScancode = none := by
      cases last with
      | inl same => exact same ▸ follows.drained heard
      | inr forgotten =>
          rw [forgotten]
          decide
    constructor
    · cases held with
      | inl same => exact same ▸ follows.heldKey
      | inr forgotten =>
          rw [forgotten]
          decide
    · intro modifier isModifier
      rw [remembers] at isModifier
      cases isModifier
    · exact fun _ => remembers

end Remember

theorem step_follows {w : PhysicalKeyboard} {event : PhysicalEvent} (follows : w.Follows)
    (clear : w.Possible event → w.Clear event) : (w.step event).Follows := by
  unfold step
  split
  · next possible => exact follows.next (clear possible)
  · exact follows

/-! ## Runs -/

theorem start_follows (s : KeyboardState) : (start s).Follows := by
  constructor
  · change SimpleOS.modifier? 0 = none
    decide
  · intro modifier isModifier
    change SimpleOS.modifier? 0 = some modifier at isModifier
    have noKey : SimpleOS.modifier? 0 = none := by decide
    rw [noKey] at isModifier
    cases isModifier
  · exact fun drained => absurd (fun left same => nomatch same) drained

theorem start_exact (s : KeyboardState) : (start s).Exact := by
  rw [exact_iff]
  funext modifier
  cases modifier <;> rfl

/--
Whatever happens to the keys, in any order and any number of lines, the flags
are exact after every byte as long as the driver gets every event right.
-/
theorem modifiers_exact_iff (s : KeyboardState) (events : List PhysicalEvent) :
    Always step Exact (start s) events ↔
      Along step (fun w event => w.Possible event → w.Clear event) (start s) events := by
  have anyEvent : ∀ event ∈ events, (fun _ : PhysicalEvent => True) event := fun _ _ => trivial
  exact always_iff_along
    (fun w event _ (follows : w.Follows) _ clear => step_follows follows clear)
    (fun w event _ (follows : w.Follows) exact => step_exact_iff follows exact event)
    (start_follows s) (start_exact s) anyEvent

/-! ## Two shift keys, and Caps Lock behind a letter -/

def blankKeyboard : KeyboardState where
  lastScancode := 0
  enterCooldown := 0
  bufferPos := 0
  inputBuffer := fun _ => 0
  heldKey := 0
  keyHoldTime := 0
  repeatDelay := 0
  heldKeyChar := 0
  shiftPressed := false
  capsLockOn := false
  ctrlPressed := false
  altPressed := false

/-- A key by its scancode, with one byte of its own. -/
def plainKey (code : Byte) (sends : 0 < code.toNat ∧ code.toNat < 128) : PhysicalKey :=
  ⟨⟨code, sends.1, sends.2⟩, false⟩

def leftShift : PhysicalKey := plainKey leftShiftScancode (by decide)
def rightShift : PhysicalKey := plainKey rightShiftScancode (by decide)
def capsLock : PhysicalKey := plainKey capsLockScancode (by decide)
def letterA : PhysicalKey := plainKey 0x1E (by decide)

/-- One of two shift keys goes up. -/
def overlappingShifts : List PhysicalEvent := [.down leftShift, .down rightShift, .up leftShift]

/-- A letter goes up while Caps Lock repeats. -/
def repeatedCapsLock : List PhysicalEvent :=
  [.down letterA, .down capsLock, .up letterA, .again capsLock]

/-- Then the flag says no shift key is down, and Caps Lock is off after one press. -/
theorem overlapping_keys_confuse_flags :
    (Along step Possible (start blankKeyboard) overlappingShifts ∧
      ¬ Always step Exact (start blankKeyboard) overlappingShifts) ∧
    (Along step Possible (start blankKeyboard) repeatedCapsLock ∧
      ¬ Always step Exact (start blankKeyboard) repeatedCapsLock) := by
  have shifts : ∀ w, w = run step (start blankKeyboard) overlappingShifts →
      w.session.keyboard.shiftPressed = false ∧ rightShift ∈ w.held := by
    intro w reached
    rw [reached]
    decide +kernel
  have presses : ∀ w, w = run step (start blankKeyboard) repeatedCapsLock →
      w.session.keyboard.capsLockOn = false ∧ w.capsPresses = 1 := by
    intro w reached
    rw [reached]
    decide +kernel
  constructor
  · constructor
    · decide +kernel
    · intro always
      obtain ⟨flag, held⟩ := shifts _ rfl
      have isShift : rightShift.Is rightShiftScancode := by decide
      have set := always.last.shift.mpr ⟨rightShift, held, Or.inr isShift⟩
      rw [flag] at set
      cases set
  · constructor
    · decide +kernel
    · intro always
      obtain ⟨flag, count⟩ := presses _ rfl
      have parity := always.last.capsLock
      rw [flag, count] at parity
      cases parity

end PhysicalKeyboard

end SimpleOS
