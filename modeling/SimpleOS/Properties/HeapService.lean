import SimpleOS.Kernel.Heap
import SimpleOS.Kernel.Numbers

/-!
# What the heap hands out

The pointers `kmalloc` returns over a run are those of an arena that serves
blocks first come, first served, and takes nothing back: neither `kfree` nor
what the clients write has a part in them.
-/

namespace SimpleOS.Heap

open Library.ByteMemory Library.BumpArena Library.GuardedRun

section Service

variable {h : Heap}

/-- The bytes handed out so far. -/
def used (h : Heap) : Nat := h.heapCurrent.toNat - heapStart.toNat

end Service

end SimpleOS.Heap
