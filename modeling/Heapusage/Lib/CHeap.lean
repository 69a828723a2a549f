/-
Heapusage.Lib.CHeap — the heap a C program may rely on.

The state is the list of blocks the program holds, each a pointer with its
contents. `Step` is the contract of `malloc`, `calloc`, `realloc` and `free`,
and of a store inside a block, as a relation: it says what the program may
conclude from a call and its result, and leaves open where blocks go and what
fresh bytes hold. Requests for a positive number of bytes succeed; one for
zero bytes may return null.

`Step.frame` is the part of the contract every caller uses: a block that is
neither the argument of a call nor stored to keeps its contents.
-/
import Mathlib.Data.List.Nodup

namespace CHeaps

universe u

/-- The blocks the program holds, with their contents. -/
abbrev Heap (β : Type u) := List (Nat × List β)

variable {β : Type u}

namespace Heap

def ptrs (H : Heap β) : List Nat := H.map Prod.fst

/-- Give up the block at `p`. -/
def drop (p : Nat) (H : Heap β) : Heap β := H.eraseP (fun b => b.1 = p)

/-- Receive the block `q`; null is no block. -/
def receive (q : Nat) (bs : List β) (H : Heap β) : Heap β := if q = 0 then H else (q, bs) :: H

/-- Store `v` at offset `i` of the block at `p`. -/
def store (p i : Nat) (v : β) (H : Heap β) : Heap β :=
  H.map fun b => if b.1 = p then (b.1, b.2.set i v) else b

/-- The blocks do not overlap. -/
def Separate (H : Heap β) : Prop :=
  H.Pairwise fun b d => b.1 + b.2.length ≤ d.1 ∨ d.1 + d.2.length ≤ b.1

end Heap

/-- The operations of a program. -/
inductive Op (β : Type u) where
  | malloc (n : Nat)
  | calloc (m n : Nat)
  | realloc (p n : Nat)
  | free (p : Nat)
  | store (p i : Nat) (v : β)

/-- The block an operation gives up, resizes or stores to. -/
def Op.target : Op β → Nat
  | .malloc _ => 0
  | .calloc _ _ => 0
  | .realloc p _ => p
  | .free p => p
  | .store p _ _ => p

/-- `q` is a block the heap does not hold; null only for zero bytes. -/
structure Heap.Fresh (H : Heap β) (q n : Nat) : Prop where
  new : q ≠ 0 → q ∉ H.ptrs
  some : n ≠ 0 → q ≠ 0

/-- The contract: an operation, its result, and the heaps before and after.
`zero` is the byte `calloc` writes. -/
inductive Step (zero : β) : Heap β → Op β → Nat → Heap β → Prop where
  | malloc {H : Heap β} {n q : Nat} {bs : List β} :
      H.Fresh q n → bs.length = n → Step zero H (.malloc n) q (H.receive q bs)
  | calloc {H : Heap β} {m n q : Nat} :
      H.Fresh q (m * n) →
      Step zero H (.calloc m n) q (H.receive q (List.replicate (m * n) zero))
  | free {H : Heap β} {p : Nat} : Step zero H (.free p) 0 (H.drop p)
  | create {H : Heap β} {n q : Nat} {bs : List β} :
      H.Fresh q n → bs.length = n → Step zero H (.realloc 0 n) q (H.receive q bs)
  | release {H : Heap β} {p : Nat} : p ≠ 0 → Step zero H (.realloc p 0) 0 (H.drop p)
  | resize {H : Heap β} {p n q : Nat} {old bs : List β} :
      p ≠ 0 → n ≠ 0 → (p, old) ∈ H → (H.drop p).Fresh q n → bs.length = n →
      bs.take (min old.length n) = old.take (min old.length n) →
      Step zero H (.realloc p n) q ((H.drop p).receive q bs)
  | store {H : Heap β} {p i : Nat} {v : β} {old : List β} :
      (p, old) ∈ H → i < old.length → Step zero H (.store p i v) 0 (H.store p i v)

namespace Heap

variable {H : Heap β} {b : Nat × List β}

theorem mem_drop_of_ne {p : Nat} (hb : b ∈ H) (hp : b.1 ≠ p) : b ∈ H.drop p :=
  (List.mem_eraseP_of_neg (by simpa using hp)).mpr hb

theorem mem_receive {q : Nat} {bs : List β} (hb : b ∈ H) : b ∈ H.receive q bs := by
  unfold receive
  split
  · exact hb
  · exact List.mem_cons_of_mem _ hb

end Heap

/-- **Frame rule**: a block that is not the target keeps its contents. -/
theorem Step.frame {zero : β} {H H' : Heap β} {op : Op β} {q : Nat} (h : Step zero H op q H')
    {x : Nat} {bs : List β} (hx : (x, bs) ∈ H) (hne : x ≠ op.target) : (x, bs) ∈ H' := by
  cases h with
  | malloc _ _ => exact Heap.mem_receive hx
  | calloc _ => exact Heap.mem_receive hx
  | free => exact Heap.mem_drop_of_ne hx hne
  | create _ _ => exact Heap.mem_receive hx
  | release _ => exact Heap.mem_drop_of_ne hx hne
  | resize _ _ _ _ _ _ => exact Heap.mem_receive (Heap.mem_drop_of_ne hx hne)
  | store _ _ => exact List.mem_map.mpr ⟨(x, bs), hx, if_neg hne⟩

end CHeaps
