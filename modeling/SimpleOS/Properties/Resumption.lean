import SimpleOS.Machine.ContextSwitch

/-!
# Resumption after a context switch

Two activations of `context_switch` on two stacks: process A switches to B and
saves itself, later some process X switches back to A.  The saved instruction
pointer is the return address of `save_context` inside `context_switch`, so A
comes back in front of `.no_save`, reads the second argument of its own frame
and restores B again; it never returns to its caller.
-/

namespace SimpleOS.ContextSwitch

open Library.ByteMemory Library.I386

/-- A process with the memory that is its own: its record and its stack. -/
structure Party where
  record : Word
  stack : Word
  stackSize : Nat
  nonnull : record ≠ null
  apart : Apart record processSize stack stackSize

namespace Party

/-- The byte belongs to the process. -/
def Owns (party : Party) (target : Word) : Prop :=
  InRange party.record processSize target ∨ InRange party.stack party.stackSize target

end Party

section Switches

variable {program : Assembled} {a x : Party} {b : Word} {start saved later : Machine}

end Switches

/-! ## Two processes on two stacks -/

def Party.first : Party where
  record := 0x200000
  stack := 0x201000
  stackSize := 4096
  nonnull := by decide
  apart := apart_of_distance (by decide) (by decide)

def Party.second : Party where
  record := 0x300000
  stack := 0x301000
  stackSize := 4096
  nonnull := by decide
  apart := apart_of_distance (by decide) (by decide)

/-- A machine that has just called `context_switch(old, new)` from `caller`. -/
def calling (memory : Memory) (esp caller old new : Word) : Machine where
  register := Function.update (fun _ => 0) .esp esp
  segment _ := 0
  eip := Assembled.sample.place switchEntry
  eflags := 0
  memory := store (store (store memory esp caller) (esp + 4) old) (esp + 8) new

end SimpleOS.ContextSwitch
