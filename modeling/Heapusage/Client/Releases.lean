/-
Heapusage.Client.Releases — which pointers `hu_free` and `hu_realloc` recognise.

The allocator keeps two sets: `hu_active_allocs`, the fenced blocks that are
live, and `hu_user_addrs`, every address that ever was one. The program's own
account of its blocks is `Holdings`: which are fenced and which are
pass-through, from the sizes it asked for alone.

§1 Holdings — the account, and a run that keeps it beside the allocator.
§2 Calls    — what a call does to the two sets (`huCall_members`).
§3 Runs     — the sets are the account, for all calls whatsoever (`HoldInv.next`).
§4 `hu_free` (`huFree_classifies_iff`), §5 `hu_realloc` without memory
   (`huRealloc_never_atomic`), §6 `hu_realloc` of a freed block
   (`huRealloc_contained_iff`).
-/
import Heapusage.Client.Quarantine
import Heapusage.Malloc.Sizes

namespace Heapusage

open Runs Tables Words

/-! ## §1 Holdings -/

/-- The pointers of the live fenced blocks, of the live pass-through blocks, and
of all blocks that were ever returned as fenced ones. -/
structure Holdings where
  fenced : Finset Nat
  plain : Finset Nat
  once : Finset Nat

namespace Holdings

/-- The call asks for a fenced block: a positive size, not below the minimum, and
not for a pass-through block to grow. -/
def Fences (c : MallocConfig) (H : Holdings) (call : Call) : Prop :=
  0 < call.requested ∧ c.huMinsize ≤ call.requested ∧
    (call.argument = 0 ∨ call.argument ∈ H.fenced)

instance (c : MallocConfig) (H : Holdings) (call : Call) : Decidable (H.Fences c call) :=
  inferInstanceAs (Decidable (_ ∧ _))

/-- The block at `p` is given up. -/
def drop (p : Nat) (H : Holdings) : Holdings :=
  { H with fenced := H.fenced.erase p, plain := H.plain.erase p }

/-- The call has returned `q`; null is no block. -/
def receive (c : MallocConfig) (call : Call) (q : Nat) (H : Holdings) : Holdings :=
  if q = 0 then H
  else if H.Fences c call then { H with fenced := insert q H.fenced, once := insert q H.once }
  else { H with plain := insert q H.plain }

/-- The account after a call that returned `q`. A fenced argument is given up in
any case, and after the new block is there; another one only if the call did
not fail. -/
def after (c : MallocConfig) (q : Nat) (H : Holdings) (call : Call) : Holdings :=
  if call.argument ∈ H.fenced then (H.receive c call q).drop call.argument
  else if call.Failed q then H
  else (H.drop call.argument).receive c call q

/-- Null is in no account. -/
def NoNull (H : Holdings) : Prop := 0 ∉ H.fenced ∧ 0 ∉ H.plain ∧ 0 ∉ H.once

end Holdings

/-- The tool with the account of the program. -/
structure Holder where
  tool : HuState
  holds : Holdings

/-- The state `hu_malloc_init` leaves, with any log. -/
def Holder.init (l : LogState) : Holder := ⟨(Session.allocInit l).tool, ⟨∅, ∅, ∅⟩⟩

def Holder.next (c : MallocConfig) (lc : LogConfig) (σ : Holder) (i : AllocInput) : Holder :=
  let r := huCall c lc i.ans i.call σ.tool
  ⟨r.1, σ.holds.after c r.2 i.call⟩

/-! ## §2 Calls -/

/-- The fenced blocks have their address in `hu_user_addrs` and a region. -/
structure MallocState.Recorded (m : MallocState) : Prop where
  addr : ∀ k, k ∈ m.huActiveAllocs → k ∈ m.huUserAddrs
  base : ∀ k b, m.huActiveAllocs.lookup k = some b → b.sysPtr ≠ 0

theorem MallocState.Recorded.erase {m m' : MallocState} (h : m.Recorded) (p : Nat)
    (hactive : m'.huActiveAllocs = m.huActiveAllocs.erase p)
    (haddrs : m'.huUserAddrs = m.huUserAddrs) : m'.Recorded := by
  constructor
  · intro k hk
    rw [hactive, AList.mem_erase] at hk
    rw [haddrs]
    exact h.addr k hk.2
  · intro k b hk
    rw [hactive, lookup_erase_eq_some] at hk
    exact h.base k b hk.2

theorem quarantine_addrs (c : MallocConfig) (lc : LogConfig) (ans : SysAns) (info : HuAllocInfo)
    (s : HuState) : (quarantine c lc ans info s).mal.huUserAddrs = s.mal.huUserAddrs := by
  unfold quarantine
  exact evictLoop_invariant c lc ans (P := fun s' => s'.mal.huUserAddrs = s.mal.huUserAddrs)
    (fun info' rest s' _ h => by rw [evictFront_addrs, h]) _ _ rfl rfl

section Calls

variable (c : MallocConfig) (lc : LogConfig) (ans : SysAns) {s : HuState}

/-- `hu_malloc` enters the block it returns in both sets, if it is a fenced one. -/
theorem huMalloc_members (h : s.mal.Recorded) (hinit : s.mal.huMallocInited = true) (n : Nat) :
    (huMalloc c ans n s).1.mal.Recorded ∧
    ∀ k, k ≠ 0 →
      (k ∈ (huMalloc c ans n s).1.mal.huActiveAllocs ↔ k ∈ s.mal.huActiveAllocs ∨
        (k = (huMalloc c ans n s).2 ∧ 0 < n ∧ c.huMinsize ≤ n)) ∧
      (k ∈ (huMalloc c ans n s).1.mal.huUserAddrs ↔ k ∈ s.mal.huUserAddrs ∨
        (k = (huMalloc c ans n s).2 ∧ 0 < n ∧ c.huMinsize ≤ n)) := by
  rcases huMalloc_cases c ans n s with ⟨hpass, heq⟩ | ⟨⟨-, hpos, hmin⟩, heq | ⟨-, hr, heq⟩⟩
  · have hsmall : ¬ (0 < n ∧ c.huMinsize ≤ n) := by
      rintro ⟨hpos, hmin⟩
      rcases hpass with hp | hp | hp
      · rw [hinit] at hp
        cases hp
      · omega
      · omega
    have hmal : (huMalloc c ans n s).1.mal = s.mal := by rw [heq]; rfl
    rw [hmal]
    exact ⟨h, fun k _ => by simp [hsmall]⟩
  · rw [heq]
    refine ⟨h, fun k hk => ?_⟩
    simp [hk]
  · rw [heq]
    refine ⟨⟨?_, ?_⟩, fun k _ => ?_⟩
    · intro k hk
      simp only [storeAllocInfo, fencedAt_active, mem_insertNew] at hk
      simp only [storeAllocInfo, fencedAt_addrs, Finset.mem_insert]
      exact hk.imp id (h.addr k)
    · intro k b hk
      simp only [storeAllocInfo, fencedAt_active, insertNew] at hk
      split at hk
      · exact h.base k b hk
      · rcases lookup_insert_eq_some.mp hk with ⟨-, rfl⟩ | ⟨-, hold⟩
        · exact hr.base_ne_zero
        · exact h.base k b hold
    · simp only [storeAllocInfo, fencedAt_active, fencedAt_addrs, mem_insertNew, Finset.mem_insert,
        hpos, hmin, and_true]
      exact ⟨or_comm, or_comm⟩

/-- `hu_free` takes its argument out of the first set only. -/
theorem huFree_members (h : s.mal.Recorded) (hinit : s.mal.huMallocInited = true) (p : Nat) :
    (huFree c lc ans p s).mal.Recorded ∧
    (huFree c lc ans p s).mal.huUserAddrs = s.mal.huUserAddrs ∧
    ∀ k, k ≠ 0 → (k ∈ (huFree c lc ans p s).mal.huActiveAllocs ↔
      k ∈ s.mal.huActiveAllocs ∧ k ≠ p) := by
  have hother : p ∉ s.mal.huActiveAllocs → ∀ k, k ∈ s.mal.huActiveAllocs ↔
      k ∈ s.mal.huActiveAllocs ∧ k ≠ p := by
    intro hp k
    refine ⟨fun hk => ⟨hk, ?_⟩, And.left⟩
    rintro rfl
    exact hp hk
  rcases huFree_cases c lc ans p s hinit with ⟨rfl, heq⟩ | ⟨-, haddr, heq⟩ | ⟨-, -, hb, heq⟩ |
    ⟨-, -, b, hb, heq⟩
  · rw [heq]
    exact ⟨h, rfl, fun k hk => by simp [hk]⟩
  · rw [heq]
    exact ⟨h, rfl, fun k _ => hother (fun hmem => haddr (h.addr p hmem)) k⟩
  · rw [heq]
    exact ⟨h, rfl, fun k _ => hother (not_mem_of_lookup_none hb) k⟩
  · have hsets : (huFree c lc ans p s).mal.huActiveAllocs = s.mal.huActiveAllocs.erase p ∧
        (huFree c lc ans p s).mal.huUserAddrs = s.mal.huUserAddrs := by
      rw [heq]
      simp only
      split
      · exact ⟨(HeapInv.quarantine_containers c lc ans b _).1, quarantine_addrs c lc ans b _⟩
      · exact ⟨rfl, rfl⟩
    refine ⟨h.erase p hsets.1 hsets.2, hsets.2, fun k _ => ?_⟩
    rw [hsets.1, AList.mem_erase]
    exact and_comm

variable {c lc ans}

/-- The call enters the block it returns. -/
def Enters (c : MallocConfig) (s : HuState) (call : Call) : Prop :=
  0 < call.requested ∧ c.huMinsize ≤ call.requested ∧
    (call.argument = 0 ∨ call.argument ∈ s.mal.huActiveAllocs)

/-- A call that returned `q`, seen from the two sets: a block it returns is entered
in both, and an argument that was in the first leaves it. -/
structure Members (c : MallocConfig) (call : Call) (q : Nat) (s s' : HuState) : Prop where
  recorded : s'.mal.Recorded
  active : ∀ k, k ≠ 0 → (k ∈ s'.mal.huActiveAllocs ↔
    (k ∈ s.mal.huActiveAllocs ∨ (k = q ∧ Enters c s call)) ∧
      (call.argument ∈ s.mal.huActiveAllocs → k ≠ call.argument))
  addrs : ∀ k, k ≠ 0 → (k ∈ s'.mal.huUserAddrs ↔
    k ∈ s.mal.huUserAddrs ∨ (k = q ∧ Enters c s call))

/-- A call that leaves the sets alone: it returns no fenced block, and its
argument is none. -/
theorem Members.same {call : Call} {q : Nat} {s' : HuState} (h : s.mal.Recorded)
    (hmal : s'.mal = s.mal) (henters : q = 0 ∨ ¬ Enters c s call)
    (harg : call.argument = 0 ∨ call.argument ∉ s.mal.huActiveAllocs) :
    Members c call q s s' := by
  have hnew : ∀ k, k ≠ 0 → ¬ (k = q ∧ Enters c s call) := by
    rintro k hk ⟨rfl, he⟩
    exact henters.elim hk fun hne => hne he
  constructor
  · rw [hmal]
    exact h
  · intro k hk
    have hkeep : call.argument ∈ s.mal.huActiveAllocs → k ≠ call.argument := by
      intro hmem
      rcases harg with harg | harg
      · rw [harg]
        exact hk
      · exact absurd hmem harg
    rw [hmal, or_iff_left (hnew k hk), and_iff_left hkeep]
  · intro k hk
    rw [hmal, or_iff_left (hnew k hk)]

/-- A call that is `hu_malloc` of its size. -/
theorem Members.malloc {call : Call} {n q : Nat} {s' : HuState} (h : s.mal.Recorded)
    (hinit : s.mal.huMallocInited = true) (hreq : call.requested = n) (harg : call.argument = 0)
    (hmal : s'.mal = (huMalloc c ans n s).1.mal) (hq : q = (huMalloc c ans n s).2) :
    Members c call q s s' := by
  subst hq
  obtain ⟨hrec, hmem⟩ := huMalloc_members c ans h hinit n
  have henters : Enters c s call ↔ 0 < n ∧ c.huMinsize ≤ n := by
    simp [Enters, hreq, harg]
  constructor
  · rw [hmal]
    exact hrec
  · intro k hk
    rw [hmal, (hmem k hk).1, henters, harg, and_iff_left (fun _ => hk)]
  · intro k hk
    rw [hmal, (hmem k hk).2, henters]

/-- A call that is `hu_free` of its argument. -/
theorem Members.free {call : Call} {p : Nat} (h : s.mal.Recorded)
    (hinit : s.mal.huMallocInited = true) (hreq : call.requested = 0) (harg : call.argument = p) :
    Members c call 0 s (huFree c lc ans p s) := by
  obtain ⟨hrec, haddrs, hmem⟩ := huFree_members c lc ans h hinit p
  have henters : ¬ Enters c s call := by simp [Enters, hreq]
  refine ⟨hrec, ?_, ?_⟩
  · intro k hk
    rw [hmem k hk, harg]
    constructor
    · rintro ⟨hka, hkp⟩
      exact ⟨.inl hka, fun _ => hkp⟩
    · rintro ⟨hka | ⟨-, he⟩, hkp⟩
      · refine ⟨hka, fun heq => ?_⟩
        exact hkp (heq ▸ hka) heq
      · exact absurd he henters
  · intro k _
    simp [haddrs, henters]

/-- `hu_realloc` of a fenced block to a positive size. -/
theorem Members.resize {p n : Nat} {b : HuAllocInfo} (h : s.mal.Recorded)
    (hinit : s.mal.huMallocInited = true) (hb : s.mal.huActiveAllocs.lookup p = some b) :
    Members c (.realloc p n) (huMalloc c ans n s).2 s
      (huFree c lc ans p (reallocCopied c ans b n s)) := by
  obtain ⟨hrec, hmem⟩ := huMalloc_members c ans h hinit n
  have hcopied : (reallocCopied c ans b n s).mal.Recorded := by
    rw [reallocCopied_mal]
    exact hrec
  obtain ⟨hrec', haddrs, hmem'⟩ := huFree_members c lc ans hcopied
    (by rw [reallocCopied_mal, huMalloc_inited, hinit]) p
  have hp := mem_of_lookup hb
  have henters : Enters c s (.realloc p n) ↔ 0 < n ∧ c.huMinsize ≤ n := by
    simp [Enters, Call.requested, Call.argument, hp]
  refine ⟨hrec', ?_, ?_⟩
  · intro k hk
    rw [hmem' k hk, reallocCopied_mal, (hmem k hk).1, henters]
    simp [Call.argument, hp]
  · intro k hk
    rw [haddrs, reallocCopied_mal, (hmem k hk).2, henters]

/-- **What a call does to the two sets.** -/
theorem huCall_members (h : s.mal.Recorded) (hinit : s.mal.huMallocInited = true) (call : Call) :
    Members c call (huCall c lc ans call s).2 s (huCall c lc ans call s).1 := by
  cases call with
  | malloc size => exact .malloc h hinit rfl rfl rfl rfl
  | free p => exact .free h hinit rfl rfl
  | calloc nmemb size =>
    simp only [huCall]
    rcases huCalloc_cases c ans nmemb size s hinit with ⟨hz, heq⟩ | ⟨-, heq⟩ | ⟨-, -, heq⟩
    · rw [heq]
      exact .same h rfl (.inr fun he => absurd hz he.1.ne') (.inl rfl)
    · rw [heq]
      exact .same h rfl (.inl rfl) (.inl rfl)
    · rw [heq]
      exact .malloc h hinit rfl rfl (callocCleared_mal c ans (nmemb * size) s) rfl
  | realloc p n =>
    simp only [huCall]
    rcases huRealloc_cases c lc ans p n s hinit with ⟨hp, heq⟩ | ⟨hp, hn, heq⟩ |
      ⟨hp, hn, b, hb, heq⟩ | ⟨hp, hn, hb, heq⟩
    · rw [heq]
      exact .malloc h hinit rfl hp rfl rfl
    · rw [heq]
      exact .free h hinit hn rfl
    · rw [heq]
      exact .resize h hinit hb
    · rw [heq]
      have hno := not_mem_of_lookup_none hb
      exact .same h rfl (.inr fun he => he.2.2.elim hp hno) (.inr hno)

end Calls

/-! ## §3 Runs -/

/-- The account is what the allocator has in its sets. -/
structure HoldInv (σ : Holder) : Prop where
  inited : σ.tool.mal.huMallocInited = true
  recorded : σ.tool.mal.Recorded
  active : ∀ k, k ≠ 0 → (k ∈ σ.tool.mal.huActiveAllocs ↔ k ∈ σ.holds.fenced)
  addrs : ∀ k, k ≠ 0 → (k ∈ σ.tool.mal.huUserAddrs ↔ k ∈ σ.holds.once)
  null : σ.holds.NoNull

namespace Holdings

variable {c : MallocConfig} {H : Holdings} {call : Call} {q k : Nat}

theorem mem_receive_fenced : k ∈ (H.receive c call q).fenced ↔
    k ∈ H.fenced ∨ (k = q ∧ q ≠ 0 ∧ H.Fences c call) := by
  unfold receive
  by_cases hq : q = 0
  · simp [hq]
  · by_cases hf : H.Fences c call
    · simp [hq, hf, or_comm]
    · simp [hq, hf]

theorem mem_receive_plain : k ∈ (H.receive c call q).plain ↔
    k ∈ H.plain ∨ (k = q ∧ q ≠ 0 ∧ ¬ H.Fences c call) := by
  unfold receive
  by_cases hq : q = 0
  · simp [hq]
  · by_cases hf : H.Fences c call
    · simp [hq, hf]
    · simp [hq, hf, or_comm]

theorem mem_receive_once : k ∈ (H.receive c call q).once ↔
    k ∈ H.once ∨ (k = q ∧ q ≠ 0 ∧ H.Fences c call) := by
  unfold receive
  by_cases hq : q = 0
  · simp [hq]
  · by_cases hf : H.Fences c call
    · simp [hq, hf, or_comm]
    · simp [hq, hf]

/-- Giving up a block that is not fenced leaves the fenced ones. -/
theorem drop_fenced {p : Nat} (hp : p ∉ H.fenced) : (H.drop p).fenced = H.fenced := by
  simp [drop, hp]

theorem drop_fences (harg : call.argument ∉ H.fenced) :
    (H.drop call.argument).Fences c call ↔ H.Fences c call := by
  rw [Fences, Fences, drop_fenced harg]

/-- A received pointer is not null. -/
theorem received (hk : k ≠ 0) {P : Prop} : k = q ∧ q ≠ 0 ∧ P ↔ k = q ∧ P := by
  constructor
  · rintro ⟨rfl, -, hp⟩
    exact ⟨rfl, hp⟩
  · rintro ⟨rfl, hp⟩
    exact ⟨rfl, hk, hp⟩

theorem mem_after_fenced (hk : k ≠ 0) : k ∈ (H.after c q call).fenced ↔
    (k ∈ H.fenced ∨ (k = q ∧ H.Fences c call)) ∧
      (call.argument ∈ H.fenced → k ≠ call.argument) := by
  unfold after
  by_cases harg : call.argument ∈ H.fenced
  · rw [if_pos harg]
    simp only [drop, Finset.mem_erase, mem_receive_fenced, received hk, harg, true_imp_iff]
    exact and_comm
  · have hnone : call.argument ∈ H.fenced → k ≠ call.argument := fun h => absurd h harg
    rw [if_neg harg, and_iff_left hnone]
    split
    · rename_i hfailed
      obtain ⟨-, rfl⟩ := hfailed
      simp [hk]
    · rw [mem_receive_fenced, received hk, drop_fences harg, drop_fenced harg]

theorem mem_after_once (hk : k ≠ 0) : k ∈ (H.after c q call).once ↔
    k ∈ H.once ∨ (k = q ∧ H.Fences c call) := by
  unfold after
  by_cases harg : call.argument ∈ H.fenced
  · rw [if_pos harg]
    simp only [drop, mem_receive_once, received hk]
  · rw [if_neg harg]
    split
    · rename_i hfailed
      obtain ⟨-, rfl⟩ := hfailed
      simp [hk]
    · rw [mem_receive_once, received hk, drop_fences harg]
      rfl

theorem NoNull.drop (h : H.NoNull) (p : Nat) : (H.drop p).NoNull := by
  obtain ⟨hf, hp, ho⟩ := h
  exact ⟨fun h0 => hf (Finset.mem_of_mem_erase h0), fun h0 => hp (Finset.mem_of_mem_erase h0), ho⟩

theorem NoNull.receive (h : H.NoNull) : (H.receive c call q).NoNull := by
  obtain ⟨hf, hp, ho⟩ := h
  have hnull : ∀ P : Prop, ¬ (0 = q ∧ q ≠ 0 ∧ P) := fun P h0 => h0.2.1 h0.1.symm
  refine ⟨?_, ?_, ?_⟩
  · simp only [mem_receive_fenced, hf, hnull, or_self, not_false_eq_true]
  · simp only [mem_receive_plain, hp, hnull, or_self, not_false_eq_true]
  · simp only [mem_receive_once, ho, hnull, or_self, not_false_eq_true]

theorem NoNull.after (h : H.NoNull) : (H.after c q call).NoNull := by
  unfold Holdings.after
  split
  · exact h.receive.drop _
  · split
    · exact h
    · exact (h.drop _).receive

end Holdings

namespace HoldInv

variable {c : MallocConfig} {lc : LogConfig} {σ : Holder} {i : AllocInput}

theorem init (l : LogState) : HoldInv (.init l) := by
  refine ⟨rfl, ⟨?_, ?_⟩, ?_, ?_, ?_⟩ <;>
    simp [Holder.init, Session.allocInit, huMallocInit, Holdings.NoNull]

theorem enters_iff (h : HoldInv σ) (call : Call) :
    Enters c σ.tool call ↔ σ.holds.Fences c call := by
  unfold Enters Holdings.Fences
  by_cases hne : call.argument = 0
  · simp [hne]
  · simp [hne, h.active _ hne]

/-- **Every call keeps the account**, whatever its argument and the answers of
the system. -/
theorem next (h : HoldInv σ) (i : AllocInput) : HoldInv (σ.next c lc i) := by
  have hmem : Members c i.call (huCall c lc i.ans i.call σ.tool).2 σ.tool
      (σ.next c lc i).tool := huCall_members h.recorded h.inited i.call
  refine ⟨?_, hmem.recorded, ?_, ?_, h.null.after⟩
  · rw [Holder.next, huCall_inited, h.inited]
  · intro k hk
    have harg : (i.call.argument ∈ σ.tool.mal.huActiveAllocs → k ≠ i.call.argument) ↔
        (i.call.argument ∈ σ.holds.fenced → k ≠ i.call.argument) := by
      by_cases hne : i.call.argument = 0
      · simp [hne, hk]
      · rw [h.active _ hne]
    rw [hmem.active k hk, h.active k hk, h.enters_iff, harg]
    exact (Holdings.mem_after_fenced hk).symm
  · intro k hk
    rw [hmem.addrs k hk, h.addrs k hk, h.enters_iff]
    exact (Holdings.mem_after_once hk).symm

theorem run (l : LogState) (is : List AllocInput) :
    HoldInv (exec (Holder.next c lc) (.init l) is) :=
  exec_invariant (fun _ i h => h.next i) is _ (init l)

end HoldInv

/-! ## §4 `hu_free` -/

/-- The fenced block at `p` leaves the active ones, for the quarantine or for
the system. -/
def Retires (p : Nat) (s s' : HuState) : Prop :=
  ∃ b, s.mal.huActiveAllocs.lookup p = some b ∧
    s'.mal.huActiveAllocs = s.mal.huActiveAllocs.erase p ∧
    (b ∈ s'.mal.huQuarantineAllocs ∨
      ∃ new r prot, s'.sys.calls = new ++ s.sys.calls ∧ SysCall.free b.sysPtr r prot ∈ new)

/-- What freeing `p` is to do: retire a live fenced block, pass a live
pass-through block to `free`, and ignore a block that was freed before. -/
structure Classified (H : Holdings) (p : Nat) (s s' : HuState) : Prop where
  fenced : Retires p s s' ↔ p ∈ H.fenced
  plain : s' = s.libcFree p ↔ p ∈ H.plain
  ignored : s' = s ↔ p ∈ H.once ∧ p ∉ H.fenced ∧ p ∉ H.plain

section Frees

variable {c : MallocConfig} {lc : LogConfig} {ans : SysAns} {s : HuState}

/-- An eviction is recorded as one call of `free`. -/
theorem evictFront_calls (c : MallocConfig) (lc : LogConfig) (ans : SysAns) (s : HuState)
    {info : HuAllocInfo} (hbase : info.sysPtr ≠ 0) :
    ∃ r prot, (evictFront c lc ans info s).sys.calls =
      .free info.sysPtr r prot :: s.sys.calls := by
  refine ⟨s.sys.arena.find info.sysPtr, (huMprotect c ans info.sysPtr info.sysSize .readWrite
    { s with mal := { s.mal with
      huQuarantineEvicted := true
      huQuarantineAllocs := s.mal.huQuarantineAllocs.tail } }).sys.prot, ?_⟩
  rw [evictFront_sys, SysHeap.libcFree_of_ne _ hbase, huMprotect_calls, huMprotect_arena]

/-- A block in the quarantine stays there or is passed to `free`. -/
theorem quarantine_retires {b : HuAllocInfo} (hb : b.sysPtr ≠ 0) :
    b ∈ (quarantine c lc ans b s).mal.huQuarantineAllocs ∨
      ∃ new r prot, (quarantine c lc ans b s).sys.calls = new ++ s.sys.calls ∧
        SysCall.free b.sysPtr r prot ∈ new := by
  have hloop : ∃ new, (quarantine c lc ans b s).sys.calls = new ++ s.sys.calls ∧
      (b ∈ (quarantine c lc ans b s).mal.huQuarantineAllocs ∨
        ∃ r prot, SysCall.free b.sysPtr r prot ∈ new) := by
    unfold quarantine
    refine evictLoop_invariant c lc ans (P := fun s' => ∃ new, s'.sys.calls = new ++ s.sys.calls ∧
      (b ∈ s'.mal.huQuarantineAllocs ∨ ∃ r prot, SysCall.free b.sysPtr r prot ∈ new)) ?_ _ _ rfl ?_
    · intro info rest s' hq ⟨new, hnew, hin⟩
      by_cases hbase : info.sysPtr = 0
      · refine ⟨new, ?_, hin.imp ?_ id⟩
        · rw [evictFront_sys, hbase, SysHeap.libcFree_null, huMprotect_calls, hnew]
        · intro hmem
          rw [evictFront_queue, hq, List.tail_cons]
          rw [hq] at hmem
          rcases List.mem_cons.mp hmem with rfl | hmem
          · exact absurd hbase hb
          · exact hmem
      · obtain ⟨r₀, prot₀, hcalls⟩ := evictFront_calls c lc ans s' hbase
        refine ⟨.free info.sysPtr r₀ prot₀ :: new, by rw [hcalls, hnew, List.cons_append], ?_⟩
        rcases hin with hmem | ⟨r, prot, hmem⟩
        · rw [hq] at hmem
          rcases List.mem_cons.mp hmem with rfl | hmem
          · exact .inr ⟨r₀, prot₀, List.mem_cons_self ..⟩
          · refine .inl ?_
            rw [evictFront_queue, hq, List.tail_cons]
            exact hmem
        · exact .inr ⟨r, prot, List.mem_cons_of_mem _ hmem⟩
    · exact ⟨[], by simp, .inl (by simp)⟩
  obtain ⟨new, hnew, hin⟩ := hloop
  exact hin.imp id fun ⟨r, prot, hmem⟩ => ⟨new, r, prot, hnew, hmem⟩

theorem huFree_retires (h : s.mal.Recorded) (hinit : s.mal.huMallocInited = true) {p : Nat}
    (hp : p ≠ 0) (hmem : p ∈ s.mal.huActiveAllocs) : Retires p s (huFree c lc ans p s) := by
  obtain ⟨b, hb⟩ := exists_lookup hmem
  have hbase := h.base p b hb
  refine ⟨b, hb, ?_⟩
  rw [huFree_of_active c lc ans hinit hp (h.addr p hmem) hb]
  split
  · exact ⟨(HeapInv.quarantine_containers c lc ans b _).1, quarantine_retires hbase⟩
  · have hcalls := congrArg SysHeap.calls (SysHeap.libcFree_of_ne
      (huMprotect c ans b.sysPtr b.sysSize .readWrite (s.deactivated p)).sys hbase)
    rw [huMprotect_calls] at hcalls
    exact ⟨rfl, .inr ⟨[_], _, _, hcalls, List.mem_singleton_self _⟩⟩

/-- The history tells a call of `free` from no call. -/
theorem libcFree_ne {p : Nat} (hp : p ≠ 0) : s.libcFree p ≠ s := by
  intro h
  have hcalls := congrArg (fun s => s.sys.calls.length) h
  rw [HuState.libcFree, SysHeap.libcFree_of_ne _ hp] at hcalls
  simp at hcalls

/-- A state with a block retired is neither. -/
theorem Retires.ne {p : Nat} {s' : HuState} (h : Retires p s s') :
    s' ≠ s ∧ s' ≠ s.libcFree p := by
  obtain ⟨b, hb, hactive, -⟩ := h
  have hmem := mem_of_lookup hb
  have hgone : p ∉ s'.mal.huActiveAllocs := by
    rw [hactive, AList.mem_erase]
    exact fun h => h.1 rfl
  constructor
  · rintro rfl
    exact hgone hmem
  · rintro rfl
    exact hgone hmem

end Frees

/-- `hu_free` does what the two sets say. -/
theorem HoldInv.huFree_eq {σ : Holder} (h : HoldInv σ) {c : MallocConfig} (lc : LogConfig)
    (ans : SysAns) {p : Nat} (hp : p ≠ 0) (hf : p ∉ σ.holds.fenced) :
    huFree c lc ans p σ.tool = if p ∈ σ.holds.once then σ.tool else σ.tool.libcFree p := by
  have hno : p ∉ σ.tool.mal.huActiveAllocs := fun hmem => hf ((h.active p hp).mp hmem)
  rcases huFree_cases c lc ans p σ.tool h.inited with ⟨rfl, -⟩ | ⟨-, haddr, heq⟩ |
    ⟨-, haddr, -, heq⟩ | ⟨-, -, b, hb, -⟩
  · exact absurd rfl hp
  · rw [heq, if_neg (fun ho => haddr ((h.addrs p hp).mpr ho))]
  · rw [heq, if_pos ((h.addrs p hp).mp haddr)]
  · exact absurd (mem_of_lookup hb) hno

/-- A pointer of the account is not null. -/
theorem HoldInv.ne_zero {σ : Holder} (h : HoldInv σ) {p : Nat}
    (hp : p ∈ σ.holds.fenced ∨ p ∈ σ.holds.plain ∨ p ∈ σ.holds.once) : p ≠ 0 := by
  obtain ⟨hf, hpl, ho⟩ := h.null
  rintro rfl
  rcases hp with hp | hp | hp
  · exact hf hp
  · exact hpl hp
  · exact ho hp

/-- A live fenced block was returned as one. -/
theorem HoldInv.once_of_fenced {σ : Holder} (h : HoldInv σ) {p : Nat}
    (hp : p ∈ σ.holds.fenced) : p ∈ σ.holds.once := by
  have hne := h.ne_zero (.inl hp)
  exact (h.addrs p hne).mp (h.recorded.addr p ((h.active p hne).mpr hp))

theorem HoldInv.classified_iff {σ : Holder} (h : HoldInv σ) (c : MallocConfig) (lc : LogConfig)
    (ans : SysAns) {p : Nat}
    (hp : p ∈ σ.holds.fenced ∨ p ∈ σ.holds.plain ∨ p ∈ σ.holds.once) :
    Classified σ.holds p σ.tool (huFree c lc ans p σ.tool) ↔
      ¬ (p ∈ σ.holds.plain ∧ p ∈ σ.holds.once) := by
  have hne := h.ne_zero hp
  by_cases hf : p ∈ σ.holds.fenced
  · have hmem := (h.active p hne).mpr hf
    have hretires : Retires p σ.tool (huFree c lc ans p σ.tool) :=
      huFree_retires h.recorded h.inited hne hmem
    obtain ⟨hsame, hfree⟩ := hretires.ne
    constructor
    · rintro hcl ⟨hplain, -⟩
      exact hfree (hcl.plain.mpr hplain)
    · intro hnot
      have honce := h.once_of_fenced hf
      refine ⟨iff_of_true hretires hf, iff_of_false hfree (fun hplain => hnot ⟨hplain, honce⟩),
        iff_of_false hsame (fun hig => hig.2.1 hf)⟩
  · have hno : ∀ s', ¬ Retires p σ.tool s' := by
      rintro s' ⟨b, hb, -⟩
      exact hf ((h.active p hne).mp (mem_of_lookup hb))
    have hlibc := libcFree_ne (s := σ.tool) hne
    rw [h.huFree_eq lc ans hne hf]
    by_cases ho : p ∈ σ.holds.once
    · rw [if_pos ho]
      constructor
      · rintro hcl ⟨hplain, -⟩
        exact hlibc (hcl.plain.mpr hplain).symm
      · intro hnot
        have hplain : p ∉ σ.holds.plain := fun hplain => hnot ⟨hplain, ho⟩
        exact ⟨iff_of_false (hno _) hf, iff_of_false hlibc.symm hplain,
          iff_of_true rfl ⟨ho, hf, hplain⟩⟩
    · have hplain : p ∈ σ.holds.plain := by
        rcases hp with hp | hp | hp
        · exact absurd hp hf
        · exact hp
        · exact absurd hp ho
      rw [if_neg ho]
      refine iff_of_true ⟨iff_of_false (hno _) hf, iff_of_true rfl hplain,
        iff_of_false hlibc (fun hig => ho hig.1)⟩ (fun hboth => ho hboth.2)

/-- `hu_free` classifies a pointer, in every state of every run of the
allocator, exactly if it is not a live pass-through block at an address that
was a fenced block before. -/
theorem huFree_classifies_iff (c : MallocConfig) (lc : LogConfig) (l : LogState)
    (is : List AllocInput) (ans : SysAns) (p : Nat)
    (hp : let H := (exec (Holder.next c lc) (.init l) is).holds
      p ∈ H.fenced ∨ p ∈ H.plain ∨ p ∈ H.once) :
    let σ := exec (Holder.next c lc) (.init l) is
    Classified σ.holds p σ.tool (huFree c lc ans p σ.tool) ↔
      ¬ (p ∈ σ.holds.plain ∧ p ∈ σ.holds.once) := by
  intro σ
  have h : HoldInv σ := HoldInv.run l is
  exact h.classified_iff c lc ans hp

/-- Fences and a minimum of 16 bytes; freed blocks go straight back. -/
def fencesFrom16 : MallocConfig := { fencesOnly with huMinsize := 16 }

/-- The log that goes with it. -/
def fencesFrom16Log : LogConfig := (HuConfig.tools true true false 16).logConfig

/-- A live fenced block is released. -/
theorem huFree_classifies_fenced :
    let σ := exec (Holder.next fencesFrom16 fencesFrom16Log) (.init logInit)
      [⟨.malloc 64, (CallEnv.answering 8192).ans⟩]
    Classified σ.holds 12224 σ.tool
      (huFree fencesFrom16 fencesFrom16Log (CallEnv.answering 0).ans 12224 σ.tool) :=
  (huFree_classifies_iff fencesFrom16 fencesFrom16Log logInit
    [⟨.malloc 64, (CallEnv.answering 8192).ans⟩] (CallEnv.answering 0).ans 12224
    (by decide)).mpr (by decide)

/-- A fenced block is freed, its memory goes to a block of eight bytes, and that
block is freed: the allocator keeps it. -/
theorem recycled_block_kept :
    let σ := exec (Holder.next fencesFrom16 fencesFrom16Log) (.init logInit)
      [⟨.malloc 64, (CallEnv.answering 8192).ans⟩, ⟨.free 12224, (CallEnv.answering 0).ans⟩,
        ⟨.malloc 8, (CallEnv.answering 12224).ans⟩]
    let s' := huFree fencesFrom16 fencesFrom16Log (CallEnv.answering 0).ans 12224 σ.tool
    12224 ∈ σ.holds.plain ∧ s' = σ.tool ∧ ¬ Classified σ.holds 12224 σ.tool s' := by
  intro σ s'
  have h : HoldInv σ := HoldInv.run logInit _
  have hplain : 12224 ∈ σ.holds.plain := by decide
  have honce : 12224 ∈ σ.holds.once := by decide
  have hfenced : 12224 ∉ σ.holds.fenced := by decide
  refine ⟨hplain, ?_, ?_⟩
  · have heq := h.huFree_eq (c := fencesFrom16) fencesFrom16Log (CallEnv.answering 0).ans
      (by decide) hfenced
    rwa [if_pos honce] at heq
  · rw [h.classified_iff fencesFrom16 fencesFrom16Log (CallEnv.answering 0).ans
      (.inr (.inl hplain))]
    exact fun hnot => hnot ⟨hplain, honce⟩

/-! ## §5 `hu_realloc` without memory -/

/-- What a failed `hu_realloc` of the block at `p` is to leave as it was: the
block, the protection and the bytes of its memory, the quarantine, and the
regions of the system. -/
structure Atomic (p : Nat) (s : HuState) (r : HuState × Nat) : Prop where
  null : r.2 = 0
  active : r.1.mal.huActiveAllocs.lookup p = s.mal.huActiveAllocs.lookup p
  pages : ∀ b, s.mal.huActiveAllocs.lookup p = some b →
    ∀ a, b.sysPtr ≤ a → a < b.sysPtr + b.sysSize →
      r.1.sys.prot a = s.sys.prot a ∧ r.1.sys.mem a = s.sys.mem a
  queue : r.1.mal.huQuarantineAllocs = s.mal.huQuarantineAllocs
  queueSize : r.1.mal.huQuarantineSize = s.mal.huQuarantineSize
  regions : ∀ region ∈ s.sys.arena.blocks, region ∈ r.1.sys.arena.blocks

/-- **`hu_realloc` gives a fenced block up**, whether it has found memory or not. -/
theorem HoldInv.realloc_inactive {σ : Holder} (h : HoldInv σ) (c : MallocConfig) (lc : LogConfig)
    (ans : SysAns) {p : Nat} (hp : p ∈ σ.holds.fenced) (n : Nat) :
    p ∉ (huRealloc c lc ans p n σ.tool).1.mal.huActiveAllocs := by
  have hne := h.ne_zero (.inl hp)
  have hmem := (h.active p hne).mpr hp
  have hset : Members c (.realloc p n) (huRealloc c lc ans p n σ.tool).2 σ.tool
      (huRealloc c lc ans p n σ.tool).1 := huCall_members h.recorded h.inited (.realloc p n)
  rw [hset.active p hne]
  exact fun hboth => hboth.2 hmem rfl

/-- `hu_realloc` of a live fenced block is never atomic when it finds no memory. -/
theorem huRealloc_never_atomic (c : MallocConfig) (lc : LogConfig) (l : LogState)
    (is : List AllocInput) (ans : SysAns) (p n : Nat) :
    let σ := exec (Holder.next c lc) (.init l) is
    p ∈ σ.holds.fenced → 0 < n → (huMalloc c ans n σ.tool).2 = 0 →
      (huRealloc c lc ans p n σ.tool).2 = 0 ∧
        ¬ Atomic p σ.tool (huRealloc c lc ans p n σ.tool) := by
  intro σ hp hn hnull
  have h : HoldInv σ := HoldInv.run l is
  have hne := h.ne_zero (.inl hp)
  have hmem := (h.active p hne).mpr hp
  have hgone := h.realloc_inactive c lc ans hp n
  constructor
  · rcases huRealloc_cases c lc ans p n σ.tool h.inited with ⟨hz, -⟩ | ⟨-, hz, -⟩ |
      ⟨-, -, b, hb, heq⟩ | ⟨-, -, hb, -⟩
    · exact absurd hz hne
    · exact absurd hz hn.ne'
    · rw [heq]
      exact hnull
    · exact absurd hmem (not_mem_of_lookup_none hb)
  · intro hatomic
    have hlook := hatomic.active
    rw [AList.lookup_eq_none.mpr hgone] at hlook
    exact not_mem_of_lookup_none hlook.symm hmem

/-- A block of 64 bytes is to grow, and there is no memory. -/
theorem huRealloc_never_atomic_refused :
    let σ := exec (Holder.next fencesFrom16 fencesFrom16Log) (.init logInit)
      [⟨.malloc 64, (CallEnv.answering 8192).ans⟩]
    ¬ Atomic 12224 σ.tool
      (huRealloc fencesFrom16 fencesFrom16Log (CallEnv.answering 0).ans 12224 128 σ.tool) :=
  (huRealloc_never_atomic fencesFrom16 fencesFrom16Log logInit
    [⟨.malloc 64, (CallEnv.answering 8192).ans⟩] (CallEnv.answering 0).ans 12224 128 (by decide)
    (by decide) (by decide)).2

/-- The block is gone, and its memory with it. -/
theorem failed_realloc_releases :
    let σ := exec (Holder.next fencesFrom16 fencesFrom16Log) (.init logInit)
      [⟨.malloc 64, (CallEnv.answering 8192).ans⟩]
    let r := huRealloc fencesFrom16 fencesFrom16Log (CallEnv.answering 0).ans 12224 128 σ.tool
    12224 ∈ σ.holds.fenced ∧
      (huMalloc fencesFrom16 (CallEnv.answering 0).ans 128 σ.tool).2 = 0 ∧ r.2 = 0 ∧
      12224 ∉ r.1.mal.huActiveAllocs ∧ σ.tool.sys.arena.blocks ≠ [] ∧
      r.1.sys.arena.blocks = [] := by
  decide

/-! ## §6 `hu_realloc` of a freed block -/

/-- Nothing happens to the block at `p`: it is not passed to the system, and the
active blocks and the quarantine stay. -/
structure Contained (p : Nat) (s s' : HuState) : Prop where
  calls : ∃ new, s'.sys.calls = new ++ s.sys.calls ∧ ∀ call ∈ new,
    (∀ r prot, call ≠ .free p r prot) ∧ ∀ n r, call ≠ .realloc p n r
  active : s'.mal.huActiveAllocs = s.mal.huActiveAllocs
  queue : s'.mal.quarantine = s.mal.quarantine

theorem libcRealloc_calls {p : Nat} (hp : p ≠ 0) (ans : SysAns) (n : Nat) (s : HuState) :
    (s.libcRealloc ans p n).1.sys.calls = .realloc p n (s.sys.arena.find p) :: s.sys.calls := by
  unfold HuState.libcRealloc
  cases hr : s.sys.arena.find p with
  | none =>
    rw [SysHeap.libcRealloc_undefined ans s.sys hp hr]
    simp [SysHeap.recorded, hr]
  | some r =>
    rcases SysHeap.libcRealloc_cases ans s.sys hp hr n with ⟨-, h⟩ | ⟨-, h⟩ | ⟨-, _, h⟩
    · simp [h, SysHeap.vacated, SysHeap.recorded, hr]
    · simp [h, SysHeap.recorded, hr]
    · simp [h, SysHeap.vacated, SysHeap.recorded, hr]

theorem HoldInv.contained_iff {σ : Holder} (h : HoldInv σ) (c : MallocConfig) (lc : LogConfig)
    (ans : SysAns) {p : Nat} (honce : p ∈ σ.holds.once) (hfenced : p ∉ σ.holds.fenced) (n : Nat) :
    Contained p σ.tool (huRealloc c lc ans p n σ.tool).1 ↔ n = 0 := by
  have hne := h.ne_zero (.inr (.inr honce))
  have hno : p ∉ σ.tool.mal.huActiveAllocs := fun hmem => hfenced ((h.active p hne).mp hmem)
  rcases huRealloc_cases c lc ans p n σ.tool h.inited with ⟨hz, -⟩ | ⟨-, hn, heq⟩ |
    ⟨-, -, b, hb, -⟩ | ⟨-, hn, -, heq⟩
  · exact absurd hz hne
  · have hsame : (huRealloc c lc ans p n σ.tool).1 = σ.tool := by
      rw [heq, h.huFree_eq lc ans hne hfenced, if_pos honce]
    rw [hsame]
    exact iff_of_true ⟨⟨[], rfl, by simp⟩, rfl, rfl⟩ hn
  · exact absurd (mem_of_lookup hb) hno
  · refine iff_of_false ?_ hn
    rintro ⟨⟨new, hnew, hnone⟩, -, -⟩
    rw [heq, libcRealloc_calls hne] at hnew
    have hsplit : [SysCall.realloc p n (σ.tool.sys.arena.find p)] = new :=
      List.append_cancel_right hnew
    have hhead : SysCall.realloc p n (σ.tool.sys.arena.find p) ∈ new := by
      rw [← hsplit]
      exact List.mem_singleton_self _
    exact (hnone _ hhead).2 n _ rfl

/-- `hu_realloc` of a fenced block that was freed, in every state of every run,
keeps to the tool exactly if the new size is zero. -/
theorem huRealloc_contained_iff (c : MallocConfig) (lc : LogConfig) (l : LogState)
    (is : List AllocInput) (ans : SysAns) (p n : Nat) :
    let σ := exec (Holder.next c lc) (.init l) is
    p ∈ σ.holds.once → p ∉ σ.holds.fenced → p ∉ σ.holds.plain →
      (Contained p σ.tool (huRealloc c lc ans p n σ.tool).1 ↔ n = 0) := by
  intro σ honce hfenced _
  have h : HoldInv σ := HoldInv.run l is
  exact h.contained_iff c lc ans honce hfenced n

/-- Fences, a minimum of 16 bytes, and room for freed blocks. -/
def quarantineFrom16 : MallocConfig :=
  { fencesFrom16 with huUseafterfree := true, huQuarantineMaxSize := 65536 }

/-- A quarantined block is given up again. -/
theorem huRealloc_contained_zero :
    let σ := exec (Holder.next quarantineFrom16 fencesFrom16Log) (.init logInit)
      [⟨.malloc 64, (CallEnv.answering 8192).ans⟩, ⟨.free 12224, (CallEnv.answering 0).ans⟩]
    Contained 12224 σ.tool (huRealloc quarantineFrom16 fencesFrom16Log
      (CallEnv.answering 0).ans 12224 0 σ.tool).1 :=
  (huRealloc_contained_iff quarantineFrom16 fencesFrom16Log logInit
    [⟨.malloc 64, (CallEnv.answering 8192).ans⟩, ⟨.free 12224, (CallEnv.answering 0).ans⟩]
    (CallEnv.answering 0).ans 12224 0 (by decide) (by decide) (by decide)).mpr rfl

/-- It is to grow: the C library is asked to resize a pointer into a protected page. -/
theorem freed_block_resized :
    let σ := exec (Holder.next quarantineFrom16 fencesFrom16Log) (.init logInit)
      [⟨.malloc 64, (CallEnv.answering 8192).ans⟩, ⟨.free 12224, (CallEnv.answering 0).ans⟩]
    let r := huRealloc quarantineFrom16 fencesFrom16Log (CallEnv.answering 0).ans 12224 128 σ.tool
    12224 ∈ σ.holds.once ∧ 12224 ∉ σ.holds.fenced ∧ 12224 ∉ σ.holds.plain ∧
      σ.tool.sys.prot 12224 = .none ∧ ¬ Contained 12224 σ.tool r.1 := by
  intro σ r
  have h : HoldInv σ := HoldInv.run logInit _
  have honce : 12224 ∈ σ.holds.once := by decide
  have hfenced : 12224 ∉ σ.holds.fenced := by decide
  refine ⟨honce, hfenced, by decide, by decide, ?_⟩
  rw [h.contained_iff quarantineFrom16 fencesFrom16Log (CallEnv.answering 0).ans honce hfenced]
  decide

end Heapusage
