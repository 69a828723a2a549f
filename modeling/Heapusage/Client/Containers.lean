/-
Heapusage.Client.Containers — what a call of the allocator does to
`hu_active_allocs` and `hu_quarantine_allocs`.

§1 `hu_malloc` adds the block it returns; `hu_free` takes the block freed out of
   the active ones, and only that block can join the queue.
§2 Moves  — the same for any call, as one inversion lemma (`huCall_moves`).
§3 Fresh results — a call never returns the user pointer of a block that is
   still in a container (`huCall_fresh`).
-/
import Heapusage.Client.HeapInvariant

namespace Heapusage

open Arenas Tables

namespace HeapInv

variable {Λ : Layout} {s s' : HuState} {L L' : ClientHeap}

/-! ## §1 `hu_malloc` and `hu_free` -/

/-- The active blocks after `hu_malloc`: the old ones and the block returned. -/
theorem huMalloc_active (c : MallocConfig) (ans : SysAns) (n : Nat) (s : HuState) {k : Nat}
    {b : HuAllocInfo} (h : (huMalloc c ans n s).1.mal.huActiveAllocs.lookup k = some b) :
    (k = (huMalloc c ans n s).2 ∧ b.userSize = n ∧ 0 < n ∧ c.huMinsize ≤ n) ∨
      s.mal.huActiveAllocs.lookup k = some b := by
  rcases huMalloc_cases c ans n s with ⟨-, heq⟩ | ⟨⟨-, hpos, hmin⟩, heq | ⟨-, hr, heq⟩⟩
  · rw [heq] at h
    exact .inr h
  · rw [heq] at h
    exact .inr h
  · rw [heq] at h ⊢
    simp only [storeAllocInfo, fencedAt_active, insertNew] at h
    split at h
    · exact .inr h
    · rcases lookup_insert_eq_some.mp h with ⟨hk, rfl⟩ | ⟨-, hb⟩
      · exact .inl ⟨hk, rfl, hpos, hmin⟩
      · exact .inr hb

/-- The eviction loop leaves the active blocks alone and takes from the queue. -/
theorem quarantine_containers (c : MallocConfig) (lc : LogConfig) (ans : SysAns)
    (info : HuAllocInfo) (s : HuState) :
    (quarantine c lc ans info s).mal.huActiveAllocs = s.mal.huActiveAllocs ∧
      ∀ b ∈ (quarantine c lc ans info s).mal.huQuarantineAllocs,
        b ∈ s.mal.huQuarantineAllocs ∨ b = info := by
  unfold quarantine
  refine evictLoop_invariant c lc ans (P := fun s' =>
    s'.mal.huActiveAllocs = s.mal.huActiveAllocs ∧
      ∀ b ∈ s'.mal.huQuarantineAllocs, b ∈ s.mal.huQuarantineAllocs ∨ b = info) ?_ _ _ rfl ?_
  · intro info' rest s' _ hs'
    refine ⟨hs'.1, fun b hb => hs'.2 b ?_⟩
    exact List.mem_of_mem_tail hb
  · refine ⟨rfl, fun b hb => ?_⟩
    simpa using hb

/-- Null is no active block. -/
theorem null_not_active (hi : HeapInv Λ s L) : 0 ∉ s.mal.huActiveAllocs := by
  intro hmem
  obtain ⟨b, hb⟩ := exists_lookup hmem
  exact hi.userPtr_ne_zero (MallocState.active_owned hb) (hi.active_key 0 b hb)

/-- Blocks other than an argument that is not active stay as they were. -/
theorem active_ne_of_not_mem {p : Nat} (hp : p ∉ s.mal.huActiveAllocs) {k : Nat}
    {b : HuAllocInfo} (hk : s.mal.huActiveAllocs.lookup k = some b) : k ≠ p := by
  intro heq
  subst heq
  exact hp (mem_of_lookup hk)

/-- The containers after `hu_free`: the block freed is active no more, and only
it can have joined the queue. -/
theorem huFree_containers (hi : HeapInv Λ s L) (c : MallocConfig) (lc : LogConfig)
    (ans : SysAns) (p : Nat) (hinit : s.mal.huMallocInited = true) :
    (∀ k b, (huFree c lc ans p s).mal.huActiveAllocs.lookup k = some b →
      s.mal.huActiveAllocs.lookup k = some b ∧ k ≠ p) ∧
    ∀ b ∈ (huFree c lc ans p s).mal.huQuarantineAllocs,
      b ∈ s.mal.huQuarantineAllocs ∨ s.mal.huActiveAllocs.lookup p = some b := by
  have hother : p ∉ s.mal.huActiveAllocs → ∀ k b, s.mal.huActiveAllocs.lookup k = some b →
      s.mal.huActiveAllocs.lookup k = some b ∧ k ≠ p := by
    intro hp k b hk
    exact ⟨hk, active_ne_of_not_mem hp hk⟩
  rcases huFree_cases c lc ans p s hinit with ⟨rfl, h⟩ | ⟨-, haddr, h⟩ | ⟨-, -, hb, h⟩ |
    ⟨-, -, b, hb, h⟩
  · rw [h]
    exact ⟨hother hi.null_not_active, fun b hb => .inl hb⟩
  · rw [h]
    exact ⟨hother (hi.not_active_of_addr haddr), fun b hb => .inl hb⟩
  · rw [h]
    exact ⟨hother (not_mem_of_lookup_none hb), fun b hb => .inl hb⟩
  · rw [h]
    simp only
    split
    · obtain ⟨hactive, hqueue⟩ := quarantine_containers c lc ans b
        { s with mal := { s.mal with huActiveAllocs := s.mal.huActiveAllocs.erase p } }
      refine ⟨fun k d hk => ?_, fun d hd => (hqueue d hd).imp id (fun h => by rw [h]; exact hb)⟩
      rw [hactive] at hk
      obtain ⟨hne, hk⟩ := lookup_erase_eq_some.mp hk
      exact ⟨hk, hne⟩
    · refine ⟨fun k d hk => ?_, fun d hd => .inl hd⟩
      obtain ⟨hne, hk⟩ := lookup_erase_eq_some.mp hk
      exact ⟨hk, hne⟩

/-! ## §2 Moves -/

/-- A call of the allocator, seen from the containers. -/
structure Moves (c : MallocConfig) (call : Call) (q : Nat) (s s' : HuState) : Prop where
  /-- an active block is the new one or one that was not given up -/
  active : ∀ k b, s'.mal.huActiveAllocs.lookup k = some b →
    (k = q ∧ b.userSize = call.requested ∧ 0 < call.requested ∧ c.huMinsize ≤ call.requested) ∨
      (s.mal.huActiveAllocs.lookup k = some b ∧ k ≠ call.argument)
  /-- a queued block was queued before or has just been given up -/
  queue : ∀ b ∈ s'.mal.huQuarantineAllocs, b ∈ s.mal.huQuarantineAllocs ∨
    s.mal.huActiveAllocs.lookup call.argument = some b

theorem huMalloc_moves (hi : HeapInv Λ s L) (c : MallocConfig) (ans : SysAns) {call : Call}
    {n : Nat} (hreq : call.requested = n) (harg : call.argument = 0) :
    Moves c call (huMalloc c ans n s).2 s (huMalloc c ans n s).1 := by
  subst hreq
  refine ⟨fun k b hk => ?_, fun b hb => .inl ?_⟩
  · refine (huMalloc_active c ans _ s hk).imp id fun hold => ⟨hold, ?_⟩
    rw [harg]
    exact active_ne_of_not_mem hi.null_not_active hold
  · rwa [huMalloc_queue] at hb

/-- A call that does not touch the allocator moves nothing. -/
theorem Moves.same {c : MallocConfig} {call : Call} {q : Nat} (hmal : s'.mal = s.mal)
    (harg : call.argument ∉ s.mal.huActiveAllocs) : Moves c call q s s' := by
  refine ⟨fun k b hk => .inr ?_, fun b hb => .inl ?_⟩
  · rw [hmal] at hk
    exact ⟨hk, active_ne_of_not_mem harg hk⟩
  · rwa [hmal] at hb

theorem huFree_moves (hi : HeapInv Λ s L) (c : MallocConfig) (lc : LogConfig) (ans : SysAns)
    {call : Call} {q : Nat} (hinit : s.mal.huMallocInited = true) :
    Moves c call q s (huFree c lc ans call.argument s) := by
  obtain ⟨hactive, hqueue⟩ := hi.huFree_containers c lc ans call.argument hinit
  exact ⟨fun k b hk => .inr (hactive k b hk), hqueue⟩

/-- **What a call of the allocator does to the containers.** -/
theorem huCall_moves (hi : HeapInv Λ s L) (c : MallocConfig) (lc : LogConfig) (ans : SysAns)
    (call : Call) (hinit : s.mal.huMallocInited = true) (hcall : call.Handled s L)
    (htakes : 0 < call.requested → c.huMinsize ≤ call.requested → Λ.Takes c call.requested) :
    Moves c call (huCall c lc ans call s).2 s (huCall c lc ans call s).1 := by
  cases call with
  | malloc size => exact hi.huMalloc_moves c ans rfl rfl
  | free ptr => exact hi.huFree_moves c lc ans hinit
  | calloc nmemb size =>
    simp only [huCall]
    rcases huCalloc_cases c ans nmemb size s hinit with ⟨-, h⟩ | ⟨-, h⟩ | ⟨-, -, h⟩
    · rw [h]
      exact .same rfl hi.null_not_active
    · rw [h]
      exact .same rfl hi.null_not_active
    · have hmal : Moves c (.calloc nmemb size) (huMalloc c ans (nmemb * size) s).2 s
          (huMalloc c ans (nmemb * size) s).1 := hi.huMalloc_moves c ans rfl rfl
      rw [h]
      refine ⟨?_, ?_⟩
      · rw [callocCleared_mal]
        exact hmal.active
      · rw [callocCleared_mal]
        exact hmal.queue
  | realloc ptr size =>
    simp only [huCall]
    rcases huRealloc_cases c lc ans ptr size s hinit with ⟨hp, h⟩ | ⟨-, -, h⟩ |
      ⟨hne, -, b, hb, h⟩ | ⟨-, -, hb, h⟩
    · rw [h]
      exact hi.huMalloc_moves c ans rfl hp
    · rw [h]
      exact hi.huFree_moves c lc ans hinit
    · have hmem : ptr ∈ L.ptrs := hcall.resolve_left hne
      have hcopied := hi.reallocCopied_keeps c ans b size htakes
      have hqp := hi.huMalloc_ne c ans size htakes hmem
      obtain ⟨hactive, hqueue⟩ := hcopied.huFree_containers c lc ans ptr (by simpa using hinit)
      rw [h]
      refine ⟨fun k d hk => ?_, fun d hd => ?_⟩
      · obtain ⟨hk, hkp⟩ := hactive k d hk
        rw [reallocCopied_mal] at hk
        exact (huMalloc_active c ans size s hk).imp id (fun hold => ⟨hold, hkp⟩)
      · have hqd := hqueue d hd
        rwa [reallocCopied_mal, huMalloc_queue, huMalloc_lookup_ne c ans size s hqp] at hqd
    · rw [h]
      exact .same rfl (not_mem_of_lookup_none hb)

/-! ## §3 Fresh results -/

/-- A pointer into a region being handed out is no user pointer in use. -/
theorem userPtr_ne (hi : HeapInv Λ s L) {b : HuAllocInfo} (hb : b ∈ s.mal.owned)
    {A : Arena Origin (2 ^ 64)} (hlive : b.region ∈ A.blocks) {r : Region} (hr : A.Admits r)
    {q : Nat} (hq : r.Holds q) : b.userPtr ≠ q := by
  rintro rfl
  exact hr.not_holds hlive (Λ.holds b (hi.owned_good b hb)) hq

theorem huMalloc_fresh (hi : HeapInv Λ s L) (c : MallocConfig) (ans : SysAns) (n : Nat)
    (htakes : 0 < n → c.huMinsize ≤ n → Λ.Takes c n) (hq : (huMalloc c ans n s).2 ≠ 0)
    {b : HuAllocInfo} (hb : b ∈ s.mal.owned) : b.userPtr ≠ (huMalloc c ans n s).2 := by
  rcases huMalloc_cases c ans n s with ⟨-, h⟩ | ⟨⟨-, hpos, hmin⟩, h | ⟨halign, hr, h⟩⟩
  · rw [h, HuState.libcMalloc] at hq ⊢
    rcases SysHeap.libcMalloc_cases ans s.sys n with hm | ⟨hr, hm⟩
    · rw [hm] at hq
      exact absurd rfl hq
    · rw [hm]
      exact hi.userPtr_ne hb (hi.owned_live b hb) hr (Block.holds_base _)
  · rw [h] at hq
    exact absurd rfl hq
  · rw [h]
    exact hi.userPtr_ne hb (hi.owned_live b hb) hr
      (Λ.holds _ (htakes hpos hmin ans.ptr halign hr.1 hr.2.1))

/-- **What a call returns is the user pointer of no block in the containers.** -/
theorem huCall_fresh (hi : HeapInv Λ s L) (c : MallocConfig) (lc : LogConfig) (ans : SysAns)
    (call : Call) (hinit : s.mal.huMallocInited = true) (hcall : call.Handled s L)
    (htakes : 0 < call.requested → c.huMinsize ≤ call.requested → Λ.Takes c call.requested)
    {b : HuAllocInfo} (hb : b ∈ s.mal.owned) : b.userPtr ≠ (huCall c lc ans call s).2 := by
  by_cases hq : (huCall c lc ans call s).2 = 0
  · rw [hq]
    exact hi.userPtr_ne_zero hb
  cases call with
  | malloc size => exact hi.huMalloc_fresh c ans size htakes hq hb
  | free ptr => exact absurd rfl hq
  | calloc nmemb size =>
    simp only [huCall] at hq ⊢
    rcases huCalloc_cases c ans nmemb size s hinit with ⟨-, h⟩ | ⟨-, h⟩ | ⟨-, -, h⟩
    · rw [h, HuState.libcCalloc] at hq ⊢
      rcases SysHeap.libcCalloc_cases ans s.sys nmemb size with hm | ⟨-, hr, hm⟩
      · rw [hm] at hq
        exact absurd rfl hq
      · rw [hm]
        exact hi.userPtr_ne hb (hi.owned_live b hb) hr (Block.holds_base _)
    · rw [h] at hq
      exact absurd rfl hq
    · rw [h] at hq ⊢
      exact hi.huMalloc_fresh c ans _ htakes hq hb
  | realloc ptr size =>
    simp only [huCall] at hq ⊢
    rcases huRealloc_cases c lc ans ptr size s hinit with ⟨-, h⟩ | ⟨-, -, h⟩ |
      ⟨-, -, d, -, h⟩ | ⟨hne, -, hlook, h⟩
    · rw [h] at hq ⊢
      exact hi.huMalloc_fresh c ans size htakes hq hb
    · rw [h] at hq
      exact absurd rfl hq
    · rw [h] at hq ⊢
      exact hi.huMalloc_fresh c ans size htakes hq hb
    · obtain ⟨m, -, hlive⟩ := hi.passed_through (hcall.resolve_left hne) hlook
      have hfind := s.sys.arena.find_eq_some hlive
      rw [h, HuState.libcRealloc] at hq ⊢
      rcases SysHeap.libcRealloc_cases ans s.sys hne hfind size with ⟨-, hm⟩ | ⟨-, hm⟩ |
        ⟨-, hr, hm⟩
      · rw [hm] at hq
        exact absurd rfl hq
      · rw [hm] at hq
        exact absurd rfl hq
      · rw [hm]
        have hkept : b.region ∈ (s.sys.vacated ptr size).arena.blocks :=
          (Arena.mem_release _ _ _).mpr ⟨hi.owned_live b hb, hi.malloc_ne_owned hlive hb⟩
        exact hi.userPtr_ne hb hkept hr (Block.holds_base _)

end HeapInv

end Heapusage
