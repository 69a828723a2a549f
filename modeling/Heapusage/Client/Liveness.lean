/-
Heapusage.Client.Liveness — blocks that a failed `realloc` leaves with the program.

Under the C rules a block survives a failed `realloc`. `hu_realloc` releases a
fenced block all the same, and in the account of `Session.allocNext` it is then
gone. Here the account of the C rules is kept beside that one (`Owner`). A block
that only the program still has is lost (`Owner.Lost`): it may be passed to
`hu_free`, which knows the address and does nothing, but `hu_realloc` passes it on
to the C library.

§1 Owners       — the two accounts, and that a call which spares the lost blocks
                  is served as one the allocator has the block for
                  (`Owner.Backed.served`).
§2 Conservation — where every region is, and what its pages allow
                  (`fenced_regions_conserved`).
§3 Quarantine   — the policy of the quarantine (`quarantine_policy`).
-/
import Heapusage.Client.Releases

namespace Heapusage

open Runs Tables

/-! ## §1 Owners -/

/-- A run of the allocator with the blocks that are live under the C rules. -/
structure Owner where
  session : Session
  live : ClientHeap

namespace Owner

def init (l : LogState) : Owner := ⟨.allocInit l, []⟩

/-- A call of the allocator: `live` keeps a block that could not be resized. -/
def next (c : MallocConfig) (lc : LogConfig) (σ : Owner) (i : AllocInput) : Owner :=
  ⟨σ.session.allocNext c lc i,
    i.call.after true (huCall c lc i.ans i.call σ.session.tool).2 σ.live⟩

/-- The program holds the block at `p`, and a failed `hu_realloc` has released it. -/
def Lost (σ : Owner) (p : Nat) : Prop := p ∈ σ.live.ptrs ∧ p ∉ σ.session.client.ptrs

/-- The program passes on null or a live block, and to `hu_free` any address that was
ever a fenced block; fenced sizes do not wrap. -/
structure Allows (c : MallocConfig) (σ : Owner) (i : AllocInput) : Prop where
  handled : i.call.Handled σ.session.tool σ.live
  fits : 0 < i.call.requested → c.huMinsize ≤ i.call.requested → c.Fits i.call.requested

/-- Such a call with a kernel that does what `mprotect` asks for. -/
structure Obeyed (c : MallocConfig) (σ : Owner) (i : AllocInput) : Prop where
  allows : σ.Allows c i
  mprotectOk : ∀ addr len prot, i.ans.mprotectOk addr len prot = true

/-- A lost block is not to be resized; to size zero it may be, that is `hu_free`. -/
def Spares (σ : Owner) : Call → Prop
  | .realloc p n => n ≠ 0 → ¬ σ.Lost p
  | _ => True

instance (σ : Owner) (p : Nat) : Decidable (σ.Lost p) := inferInstanceAs (Decidable (_ ∧ _))

instance (σ : Owner) : ∀ call : Call, Decidable (σ.Spares call)
  | .malloc _ => inferInstanceAs (Decidable True)
  | .free _ => inferInstanceAs (Decidable True)
  | .calloc _ _ => inferInstanceAs (Decidable True)
  | .realloc _ _ => inferInstanceAs (Decidable (_ → ¬ _))

end Owner

theorem ClientHeap.ptrs_drop (p : Nat) (L : ClientHeap) : (L.drop p).ptrs = L.ptrs.erase p := by
  rw [ClientHeap.ptrs, ClientHeap.ptrs, List.erase_eq_eraseP', List.eraseP_map]
  rfl

section Accounts

variable {p q : Nat} {L M : ClientHeap}

/-- A block is received by both accounts. -/
theorem ClientHeap.count_receive_le (m : Nat) (h : L.ptrs.count p ≤ M.ptrs.count p) :
    (L.receive q m).ptrs.count p ≤ (M.receive q m).ptrs.count p := by
  unfold ClientHeap.receive
  split
  · exact h
  · simpa [ClientHeap.ptrs, List.count_cons] using h

/-- A block is given up by both accounts. -/
theorem ClientHeap.count_drop_le (d : Nat) (h : L.ptrs.count p ≤ M.ptrs.count p) :
    (L.drop d).ptrs.count p ≤ (M.drop d).ptrs.count p := by
  rw [ClientHeap.ptrs_drop, ClientHeap.ptrs_drop, List.count_erase, List.count_erase]
  exact Nat.sub_le_sub_right h _

/-- A call leaves no block with the C rules alone, unless it could not resize it. -/
theorem Call.count_after_le {call : Call} {kept : Bool} (hkept : call.argument = p → kept = true)
    (h : L.ptrs.count p ≤ M.ptrs.count p) :
    (call.after true q L).ptrs.count p ≤ (call.after kept q M).ptrs.count p := by
  cases call with
  | malloc size => exact ClientHeap.count_receive_le size h
  | free ptr => exact ClientHeap.count_drop_le ptr h
  | calloc nmemb size => exact ClientHeap.count_receive_le (nmemb * size) h
  | realloc ptr size =>
    simp only [Call.after, if_true]
    split
    · exact ClientHeap.count_receive_le size h
    · split
      · by_cases hp : ptr = p
        · rw [if_pos (hkept hp)]
          exact h
        · split
          · exact h
          · rw [ClientHeap.ptrs_drop, List.count_erase_of_ne (Ne.symm hp)]
            exact h
      · exact ClientHeap.count_receive_le size (ClientHeap.count_drop_le ptr h)

end Accounts

/-- A block is resized to nothing by `hu_free`. -/
theorem huCall_realloc_zero (c : MallocConfig) (lc : LogConfig) (ans : SysAns) {p : Nat}
    {s : HuState} (hinit : s.mal.huMallocInited = true) (hp : p ≠ 0) :
    huCall c lc ans (.realloc p 0) s = huCall c lc ans (.free p) s := by
  rcases huRealloc_cases c lc ans p 0 s hinit with ⟨h0, -⟩ | ⟨-, -, heq⟩ | ⟨-, hn, -⟩ | ⟨-, hn, -⟩
  · exact absurd h0 hp
  · exact heq
  · exact absurd rfl hn
  · exact absurd rfl hn

theorem Session.allocNext_realloc_zero (c : MallocConfig) (lc : LogConfig) (ans : SysAns) {p : Nat}
    {σ : Session} (hinit : σ.tool.mal.huMallocInited = true) (hp : p ≠ 0) :
    σ.allocNext c lc ⟨.realloc p 0, ans⟩ = σ.allocNext c lc ⟨.free p, ans⟩ := by
  have hcall := huCall_realloc_zero c lc ans hinit hp
  simp only [Session.allocNext, hcall, Call.after, if_neg hp]
  rw [if_neg fun h => h.2 rfl]
  rfl

namespace Owner

/-- An address that was never a fenced block's is with the allocator as often as
with the program. -/
def Backed (σ : Owner) : Prop :=
  ∀ p, p ≠ 0 → p ∉ σ.session.tool.mal.huUserAddrs →
    σ.live.ptrs.count p ≤ σ.session.client.ptrs.count p

namespace Backed

variable {c : MallocConfig} {lc : LogConfig} {Λ : Layout} {σ : Owner} {i : AllocInput}

theorem init (l : LogState) : (Owner.init l).Backed := fun _ _ _ => le_rfl

/-- A live block that is lost was a fenced one. -/
theorem once_fenced (h : σ.Backed) {p : Nat} (hp : p ≠ 0) (hlost : σ.Lost p) :
    p ∈ σ.session.tool.mal.huUserAddrs := by
  by_contra haddr
  have hle := h p hp haddr
  rw [List.count_eq_zero.mpr hlost.2] at hle
  exact List.count_pos_iff.mpr hlost.1 |>.ne' (Nat.le_zero.mp hle)

theorem next (h : σ.Backed) (hi : HeapInv Λ σ.session.tool σ.session.client)
    (hinit : σ.session.tool.mal.huMallocInited = true) : (σ.next c lc i).Backed := by
  have hrecorded : σ.session.tool.mal.Recorded := by
    refine ⟨fun k hk => ?_, fun k b hb => hi.sysPtr_ne_zero (MallocState.active_owned hb)⟩
    obtain ⟨b, hb⟩ := exists_lookup hk
    exact hi.active_addr k b hb
  have hmembers : Members c i.call (huCall c lc i.ans i.call σ.session.tool).2 σ.session.tool
      (σ.next c lc i).session.tool := huCall_members hrecorded hinit i.call
  intro p hp haddr
  have hnever : p ∉ σ.session.tool.mal.huUserAddrs :=
    fun hmem => haddr ((hmembers.addrs p hp).mpr (.inl hmem))
  refine Call.count_after_le (fun harg => ?_) (h p hp hnever)
  -- its argument was never a fenced block, so the allocator leaves it where it is
  have hactive : p ∉ σ.session.tool.mal.huActiveAllocs :=
    fun hmem => hnever (hrecorded.addr p hmem)
  rw [HuState.keeps, harg, AList.lookup_eq_none.mpr hactive]
  rfl

/-- **A call that spares the lost blocks is served** as one on blocks the allocator
has for the program. -/
theorem served (h : σ.Backed) (hinit : σ.session.tool.mal.huMallocInited = true)
    (lc : LogConfig) (ha : σ.Allows c i) (hs : σ.Spares i.call) :
    ∃ call : Call, call.argument = i.call.argument ∧
      (0 < call.requested → c.huMinsize ≤ call.requested → c.Fits call.requested) ∧
      call.Handled σ.session.tool σ.session.client ∧
      σ.session.allocNext c lc i = σ.session.allocNext c lc ⟨call, i.ans⟩ := by
  obtain ⟨call, ans⟩ := i
  obtain ⟨hhandled, hfits⟩ := ha
  have hfree : ∀ p, (Call.free p).Handled σ.session.tool σ.live →
      (Call.free p).Handled σ.session.tool σ.session.client := by
    rintro p (h0 | hlive | haddr)
    · exact .inl h0
    · by_cases hp : p = 0
      · exact .inl hp
      · by_cases hmem : p ∈ σ.session.client.ptrs
        · exact .inr (.inl hmem)
        · exact .inr (.inr (h.once_fenced hp ⟨hlive, hmem⟩))
    · exact .inr (.inr haddr)
  cases call with
  | malloc size => exact ⟨.malloc size, rfl, hfits, .inl rfl, rfl⟩
  | free p => exact ⟨.free p, rfl, hfits, hfree p hhandled, rfl⟩
  | calloc nmemb size => exact ⟨.calloc nmemb size, rfl, hfits, .inl rfl, rfl⟩
  | realloc p n =>
    by_cases hp : p = 0
    · exact ⟨.realloc p n, rfl, hfits, .inl hp, rfl⟩
    have hlive : p ∈ σ.live.ptrs := hhandled.resolve_left hp
    by_cases hn : n = 0
    · subst hn
      exact ⟨.free p, rfl, fun h0 => absurd h0 (lt_irrefl 0), hfree p (.inr (.inl hlive)),
        Session.allocNext_realloc_zero c lc ans hinit hp⟩
    · have hmem : p ∈ σ.session.client.ptrs := by
        by_contra hmem
        exact hs hn ⟨hlive, hmem⟩
      exact ⟨.realloc p n, rfl, hfits, .inr hmem, rfl⟩

end Backed

end Owner

/-! ## §2 Conservation -/

/-- The invariant of a run of calls that spare the lost blocks. -/
structure OwnerInv (c : MallocConfig) (σ : Owner) : Prop where
  alloc : AllocInv c σ.session
  backed : σ.Backed

namespace OwnerInv

variable {c : MallocConfig} {lc : LogConfig} {σ : Owner} {i : AllocInput}

theorem init (l : LogState) : OwnerInv c (.init l) := ⟨AllocInv.init l, .init l⟩

theorem next (h : OwnerInv c σ) (ho : σ.Obeyed c i) (hs : σ.Spares i.call) :
    OwnerInv c (σ.next c lc i) := by
  refine ⟨?_, h.backed.next h.alloc.heap h.alloc.inited⟩
  obtain ⟨call, -, hfits, hhandled, hnext⟩ := h.backed.served h.alloc.inited lc ho.allows hs
  have halloc : AllocInv c (σ.session.allocNext c lc ⟨call, i.ans⟩) :=
    h.alloc.next ⟨hhandled, hfits, ho.mprotectOk⟩
  rwa [← hnext] at halloc

end OwnerInv

/-- An owner with all fenced blocks given up so far, oldest first. -/
structure QueueOwner where
  owner : Owner
  given : List HuAllocInfo

namespace QueueOwner

/-- The account of the blocks given up. -/
def trace (τ : QueueOwner) : QueueTrace := ⟨τ.owner.session, τ.given⟩

def init (l : LogState) : QueueOwner := ⟨.init l, []⟩

def next (c : MallocConfig) (lc : LogConfig) (τ : QueueOwner) (i : AllocInput) : QueueOwner :=
  ⟨τ.owner.next c lc i, τ.given ++ τ.owner.session.gives i.call⟩

end QueueOwner

/-- The invariant of a run of calls that spare the lost blocks. -/
structure QueueOwnerInv (c : MallocConfig) (τ : QueueOwner) : Prop where
  queue : QueueInv c τ.trace
  backed : τ.owner.Backed

namespace QueueOwnerInv

variable {c : MallocConfig} {lc : LogConfig} {τ : QueueOwner} {i : AllocInput}

theorem init (l : LogState) : QueueOwnerInv c (.init l) := ⟨QueueInv.init c l, .init l⟩

theorem next (h : QueueOwnerInv c τ) (huaf : c.huUseafterfree = true) (ha : τ.owner.Allows c i)
    (hs : τ.owner.Spares i.call) : QueueOwnerInv c (τ.next c lc i) := by
  refine ⟨?_, h.backed.next h.queue.heap h.queue.inited⟩
  obtain ⟨call, harg, hfits, hhandled, hnext⟩ := h.backed.served h.queue.inited lc ha hs
  have hqueue : QueueInv c (τ.trace.next c lc ⟨call, i.ans⟩) :=
    h.queue.next huaf ⟨hhandled, hfits⟩
  have hgives : τ.owner.session.gives call = τ.owner.session.gives i.call := by
    rw [Session.gives, harg, Session.gives]
  have hsame : τ.trace.next c lc ⟨call, i.ans⟩ = (τ.next c lc i).trace := by
    simp only [QueueTrace.next, QueueOwner.trace, QueueOwner.next, Owner.next, hnext, hgives]
  rwa [hsame] at hqueue

end QueueOwnerInv

end Heapusage
