/-
Heapusage.System.SysHeap — the C library's heap and `mprotect`, as far as the
tool uses them: `__libc_malloc`, `__libc_free`, `__libc_calloc`,
`__libc_realloc`, `posix_memalign`, `mprotect`, `memset` and `memcpy`.

What the allocator decides is an input. `SysAns` carries the address it would
like to hand out, the bytes that address holds, and which `mprotect` calls
succeed. A grant goes through only when the arena admits the block: inside
the 64-bit address space, not at null, apart from every region handed out
and not yet taken back. Any other answer is the null pointer. So every run
over arbitrary answers is a run of an allocator that keeps the C contract,
failures and reuse of released addresses included, and no theorem needs a
hypothesis about it.

`calls` is a history of the calls whose arguments the contract restricts:
each `free` and `realloc` is recorded with the live region its pointer was
the base of, if any, and each `free` with the page protections at that
moment. Passing on anything else is undefined; the heap is then left as it
was and the history shows it.

Addresses and sizes are naturals; null is 0.
-/
import Heapusage.Lib.Arena
import Heapusage.Lib.Words

namespace Heapusage

open Arenas

/-- `PROT_NONE` and `PROT_READ | PROT_WRITE`. -/
inductive Prot where
  | none
  | readWrite
  deriving DecidableEq, Repr

/-- Which function handed a region out. -/
inductive Origin where
  | malloc
  | memalign
  deriving DecidableEq, Repr

/-- A region of the system heap. -/
abbrev Region := Block Origin

/-- A call into the C library that the history keeps. -/
inductive SysCall where
  | memalign (r : Region)
  | free (p : Nat) (r : Option Region) (prot : Nat → Prot)
  | realloc (p : Nat) (size : Nat) (r : Option Region)

/-- The system heap. -/
structure SysHeap where
  arena : Arena Origin (2 ^ 64)
  mem : Nat → UInt8
  prot : Nat → Prot
  calls : List SysCall

/-- What the C library and the kernel answer during one call of a wrapper. -/
structure SysAns where
  ptr : Nat
  fill : Nat → UInt8
  mprotectOk : Nat → Nat → Prot → Bool

namespace SysHeap

/-- An untouched heap: no region, every page readable and writable. -/
def init : SysHeap where
  arena := Arena.empty
  mem := fun _ => 0
  prot := fun _ => .readWrite
  calls := []

/-- The heap with region `r` handed out, holding the bytes `fill`. -/
def granted (r : Region) (fill : Nat → UInt8) (h : SysHeap) (hr : h.arena.Admits r) : SysHeap :=
  { h with
    arena := h.arena.add r hr
    mem := fun a => if r.base ≤ a ∧ a < r.base + r.size then fill a else h.mem a }

/-- Hand out region `r`, if the arena admits it. -/
def grant (r : Region) (fill : Nat → UInt8) (h : SysHeap) : Option SysHeap :=
  if hr : h.arena.Admits r then some (h.granted r fill hr) else none

/-- `__libc_malloc` -/
def libcMalloc (ans : SysAns) (size : Nat) (h : SysHeap) : SysHeap × Nat :=
  match h.grant ⟨ans.ptr, size, .malloc⟩ ans.fill with
  | some h' => (h', ans.ptr)
  | none => (h, 0)

/-- `__libc_free` -/
def libcFree (p : Nat) (h : SysHeap) : SysHeap :=
  if p = 0 then h
  else
    { h with
      arena := h.arena.release p
      calls := .free p (h.arena.find p) h.prot :: h.calls }

/-- `__libc_calloc`: a product that does not fit fails. -/
def libcCalloc (ans : SysAns) (nmemb size : Nat) (h : SysHeap) : SysHeap × Nat :=
  if nmemb * size < 2 ^ 64 then
    match h.grant ⟨ans.ptr, nmemb * size, .malloc⟩ (fun _ => 0) with
    | some h' => (h', ans.ptr)
    | none => (h, 0)
  else (h, 0)

/-- The bytes of a reallocated block: the old ones as far as both sizes
reach, then whatever the allocator left there. -/
def reallocFill (ans : SysAns) (p oldSize : Nat) (h : SysHeap) : Nat → UInt8 :=
  fun a => if a - ans.ptr < oldSize then h.mem (p + (a - ans.ptr)) else ans.fill a

/-- The heap with a `realloc` recorded. -/
def recorded (p size : Nat) (h : SysHeap) : SysHeap :=
  { h with calls := .realloc p size (h.arena.find p) :: h.calls }

/-- The recorded heap with the old block gone. -/
def vacated (p size : Nat) (h : SysHeap) : SysHeap :=
  { h.recorded p size with arena := h.arena.release p }

/-- `__libc_realloc`. Size zero frees the block and returns null; a failure
leaves the block alone. -/
def libcRealloc (ans : SysAns) (p size : Nat) (h : SysHeap) : SysHeap × Nat :=
  if p = 0 then h.libcMalloc ans size
  else
    match h.arena.find p with
    | none => (h.recorded p size, 0)
    | some r =>
      if size = 0 then (h.vacated p size, 0)
      else
        match (h.vacated p size).grant ⟨ans.ptr, size, .malloc⟩ (h.reallocFill ans p r.size) with
        | some h' => (h', ans.ptr)
        | none => (h.recorded p size, 0)

/-- `posix_memalign`; null stands for a non-zero return value. -/
def posixMemalign (ans : SysAns) (align size : Nat) (h : SysHeap) : SysHeap × Nat :=
  if ans.ptr % align = 0 then
    match h.grant ⟨ans.ptr, size, .memalign⟩ ans.fill with
    | some h' => ({ h' with calls := .memalign ⟨ans.ptr, size, .memalign⟩ :: h'.calls }, ans.ptr)
    | none => (h, 0)
  else (h, 0)

/-- `mprotect`: the new heap, and whether the call succeeded. -/
def mprotect (ans : SysAns) (addr len : Nat) (prot : Prot) (h : SysHeap) : SysHeap × Bool :=
  if ans.mprotectOk addr len prot then
    ({ h with prot := fun a => if addr ≤ a ∧ a < addr + len then prot else h.prot a }, true)
  else (h, false)

/-- `memset` -/
def memset (p : Nat) (v : UInt8) (n : Nat) (h : SysHeap) : SysHeap :=
  { h with mem := fun a => if p ≤ a ∧ a < p + n then v else h.mem a }

/-- `memcpy` -/
def memcpy (dst src : Nat) (n : Nat) (h : SysHeap) : SysHeap :=
  { h with mem := fun a => if dst ≤ a ∧ a < dst + n then h.mem (src + (a - dst)) else h.mem a }

/-- A store by the program under analysis. -/
def store (a : Nat) (v : UInt8) (h : SysHeap) : SysHeap :=
  { h with mem := fun x => if x = a then v else h.mem x }

end SysHeap

end Heapusage
