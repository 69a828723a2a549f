/-
Heapusage.Client.HeapInvariant — who owns which region of the system heap.

`HeapInv Λ s L` ties the allocator's two containers, the system heap and the
blocks the program holds: every active or quarantined block has its own live
region and the layout `hu_malloc` computed, and every block the program holds
is an active fenced block or a pass-through region. Two blocks never overlap
because their regions are two blocks of one arena.

The invariant is kept by every call of the C library on a pass-through block
and by every call of the fenced allocator whose sizes do not wrap, whether
the call succeeds or not (`HeapInv.huCall`, `HeapInv.libcCall`). One thing a
failure does change: `hu_realloc` releases a fenced block also when it found
no memory, so the block is then no longer with the program
(`kept := (lookup p).isNone`).
-/
import Heapusage.Client.ClientHeap
import Heapusage.Malloc.HuMallocTheorems

namespace Heapusage

open Arenas Tables Words

/-- The blocks the allocator has a region for: active ones, then the queue. -/
def MallocState.owned (m : MallocState) : List HuAllocInfo :=
  values m.huActiveAllocs ++ m.huQuarantineAllocs

/-- The block at `p` with requested size `n` is there: fenced and active, or
a region of its own. -/
def HuState.Holds (s : HuState) (p n : Nat) : Prop :=
  (∃ b, s.mal.huActiveAllocs.lookup p = some b ∧ b.userSize = n) ∨
    (⟨p, n, .malloc⟩ : Region) ∈ s.sys.arena.blocks

/-- A live region starts at `p`. -/
def HuState.Based (p : Nat) (s : HuState) : Prop := ∃ r ∈ s.sys.arena.blocks, r.base = p

/-- A pointer that no call of the run returned: of a block older than `hu_init`, or
of one the C library has for itself and releases in `__libc_freeres`. -/
def HuState.Foreign (p : Nat) (s : HuState) : Prop := ¬ s.Based p ∧ p ∉ s.mal.huUserAddrs

instance (s : HuState) (p : Nat) : Decidable (s.Based p) :=
  inferInstanceAs (Decidable (∃ r ∈ s.sys.arena.blocks, r.base = p))

instance (s : HuState) (p : Nat) : Decidable (s.Foreign p) :=
  inferInstanceAs (Decidable (¬ _ ∧ _))

/-- What is known of every block of the allocator; at least that its user
pointer is in its region. -/
structure Layout where
  Good : HuAllocInfo → Prop
  holds : ∀ b, Good b → b.region.Holds b.userPtr

/-- Nothing more than that, and a size `hu_malloc` does not pass on. -/
def Layout.placed (c : MallocConfig) : Layout :=
  ⟨fun b => b.region.Holds b.userPtr ∧ 0 < b.userSize ∧ c.huMinsize ≤ b.userSize, fun _ h => h.1⟩

/-- The layout of sizes that do not wrap. -/
def Layout.shaped (c : MallocConfig) : Layout :=
  ⟨HuAllocInfo.Shaped c, fun _ h => h.region_holds_userPtr⟩

/-- A fenced allocation of `n` bytes gives a block of the layout, wherever
`posix_memalign` puts it. -/
def Layout.Takes (Λ : Layout) (c : MallocConfig) (n : Nat) : Prop :=
  ∀ sysPtr, sysPtr % c.huPageSize = 0 → 0 < sysPtr →
    (allocInfoAt c n sysPtr).region.stop ≤ 2 ^ 64 → Λ.Good (allocInfoAt c n sysPtr)

theorem MallocConfig.Placed.takes {c : MallocConfig} {n : Nat} (hn : 0 < n)
    (hmin : c.huMinsize ≤ n) (h : c.Placed n) : (Layout.placed c).Takes c n :=
  fun _ _ _ hstop => ⟨allocInfoAt_holds h hstop, hn, hmin⟩

theorem MallocConfig.Fits.takes {c : MallocConfig} {n : Nat} (hn : 0 < n) (h : c.Fits n) :
    (Layout.shaped c).Takes c n :=
  fun _ halign hpos hstop => allocInfoAt_shaped_of_stop hn h halign hpos hstop

/-- The ownership invariant. -/
structure HeapInv (Λ : Layout) (s : HuState) (L : ClientHeap) : Prop where
  owned_good : ∀ b ∈ s.mal.owned, Λ.Good b
  owned_live : ∀ b ∈ s.mal.owned, b.region ∈ s.sys.arena.blocks
  owned_nodup : (s.mal.owned.map HuAllocInfo.sysPtr).Nodup
  active_key : ∀ k b, s.mal.huActiveAllocs.lookup k = some b → b.userPtr = k
  active_addr : ∀ k b, s.mal.huActiveAllocs.lookup k = some b → k ∈ s.mal.huUserAddrs
  client_held : ∀ p n, (p, n) ∈ L → s.Holds p n
  client_nodup : L.ptrs.Nodup

/-- A failed `realloc` leaves the block with the program unless the block is
fenced: `hu_realloc` has then released it. -/
def HuState.keeps (s : HuState) (call : Call) : Bool :=
  (s.mal.huActiveAllocs.lookup call.argument).isNone

/-- Both allocators pass a foreign block on to the C library. -/
theorem allocHalf_foreign {c : HuConfig} {s : HuState} (ans : SysAns) {p : Nat}
    (hp : p = 0 ∨ s.Foreign p) : allocHalf c ans (.free p) s = (s.libcFree p, 0) := by
  have hfree : huFree c.mallocConfig c.logConfig ans p s = s.libcFree p := by
    by_cases h0 : p = 0
    · simp [huFree, h0, HuState.libcFree]
    · simp [huFree, h0, (hp.resolve_left h0).2]
  unfold allocHalf
  split
  · exact congrArg (·, 0) hfree
  · rfl

/-- There it takes nothing back that was handed out. -/
theorem libcFree_foreign {s : HuState} {p : Nat} (hp : p = 0 ∨ s.Foreign p) :
    (s.libcFree p).sys.arena = s.sys.arena := by
  unfold HuState.libcFree SysHeap.libcFree
  split
  · rfl
  · rename_i h0
    exact s.sys.arena.release_of_forall_ne fun d hd hbase =>
      (hp.resolve_left h0).1 ⟨d, hd, hbase⟩

/-- What a program may pass to the allocator: null, a block it holds, and to
`hu_free` any address that was ever a fenced block. -/
def Call.Handled (s : HuState) (L : ClientHeap) : Call → Prop
  | .free ptr => ptr = 0 ∨ ptr ∈ L.ptrs ∨ ptr ∈ s.mal.huUserAddrs
  | call => call.Permitted L

theorem Call.Permitted.handled {s : HuState} {L : ClientHeap} {call : Call}
    (h : call.Permitted L) : call.Handled s L := by
  cases call with
  | free ptr => exact h.imp id .inl
  | malloc size => exact h
  | calloc nmemb size => exact h
  | realloc ptr size => exact h

/-! ## Consequences -/

theorem MallocState.mem_owned {m : MallocState} {b : HuAllocInfo} :
    b ∈ m.owned ↔ (∃ k, m.huActiveAllocs.lookup k = some b) ∨ b ∈ m.huQuarantineAllocs := by
  rw [MallocState.owned, List.mem_append, mem_values]

theorem MallocState.active_owned {m : MallocState} {k : Nat} {b : HuAllocInfo}
    (h : m.huActiveAllocs.lookup k = some b) : b ∈ m.owned :=
  mem_owned.mpr (.inl ⟨k, h⟩)

theorem MallocState.queue_owned {m : MallocState} {b : HuAllocInfo}
    (h : b ∈ m.huQuarantineAllocs) : b ∈ m.owned :=
  mem_owned.mpr (.inr h)

/-- A block leaves the containers: the others were there, and start elsewhere. -/
theorem MallocState.owned_shed {m m' : MallocState} {b : HuAllocInfo}
    (howned : m.owned.Perm (b :: m'.owned)) (hnodup : (m.owned.map HuAllocInfo.sysPtr).Nodup) :
    (m'.owned.map HuAllocInfo.sysPtr).Nodup ∧
      ∀ d ∈ m'.owned, d ∈ m.owned ∧ d.sysPtr ≠ b.sysPtr := by
  have hnd : ((b :: m'.owned).map HuAllocInfo.sysPtr).Nodup := (howned.map _).nodup hnodup
  rw [List.map_cons, List.nodup_cons] at hnd
  refine ⟨hnd.2, fun d hd => ⟨howned.mem_iff.mpr (List.mem_cons_of_mem b hd), fun hbase => ?_⟩⟩
  exact hnd.1 (List.mem_map.mpr ⟨d, hd, hbase⟩)

/-- An active block joins the queue: the containers hold the same blocks. -/
theorem MallocState.owned_join {m m' : MallocState} {p : Nat} {b : HuAllocInfo}
    (hb : m.huActiveAllocs.lookup p = some b)
    (hactive : m'.huActiveAllocs = m.huActiveAllocs.erase p)
    (hqueue : m'.huQuarantineAllocs = m.huQuarantineAllocs ++ [b]) :
    m'.owned.Perm m.owned := by
  simp only [MallocState.owned, hactive, hqueue]
  rw [← List.append_assoc]
  refine List.perm_append_comm.trans ?_
  exact ((values_perm_erase hb).append_right m.huQuarantineAllocs).symm

section Stored

variable {c : MallocConfig} {ans : SysAns} {n : Nat} {s : HuState}

/-- A fenced block with a user pointer of its own is added to the active ones. -/
theorem stored_active (hr : s.sys.arena.Admits (fencedRegion c ans n))
    (hnew : (allocInfoAt c n ans.ptr).userPtr ∉ s.mal.huActiveAllocs) :
    (storeAllocInfo (allocInfoAt c n ans.ptr) (fencedAt c ans n s hr)).mal.huActiveAllocs =
      s.mal.huActiveAllocs.insert (allocInfoAt c n ans.ptr).userPtr
        (allocInfoAt c n ans.ptr) := by
  simp only [storeAllocInfo, fencedAt_active, insertNew_of_not_mem hnew]

theorem stored_owned (hr : s.sys.arena.Admits (fencedRegion c ans n))
    (hnew : (allocInfoAt c n ans.ptr).userPtr ∉ s.mal.huActiveAllocs) :
    (storeAllocInfo (allocInfoAt c n ans.ptr) (fencedAt c ans n s hr)).mal.owned =
      allocInfoAt c n ans.ptr :: s.mal.owned := by
  rw [MallocState.owned, stored_active hr hnew, values_insert_of_not_mem hnew]
  simp only [storeAllocInfo, fencedAt_queue, MallocState.owned, List.cons_append]

/-- Its region is live, like those of the blocks there were. -/
theorem stored_live (hr : s.sys.arena.Admits (fencedRegion c ans n))
    (hnew : (allocInfoAt c n ans.ptr).userPtr ∉ s.mal.huActiveAllocs)
    (hlive : ∀ b ∈ s.mal.owned, b.region ∈ s.sys.arena.blocks) :
    ∀ b ∈ (storeAllocInfo (allocInfoAt c n ans.ptr) (fencedAt c ans n s hr)).mal.owned,
      b.region ∈ (storeAllocInfo (allocInfoAt c n ans.ptr)
        (fencedAt c ans n s hr)).sys.arena.blocks := by
  intro b hb
  rw [stored_owned hr hnew] at hb
  simp only [storeAllocInfo, fencedAt_arena, Arena.mem_add]
  rcases List.mem_cons.mp hb with rfl | hb
  · exact .inl rfl
  · exact .inr (hlive b hb)

/-- It starts where no block of the containers does. -/
theorem stored_nodup (hr : s.sys.arena.Admits (fencedRegion c ans n))
    (hnew : (allocInfoAt c n ans.ptr).userPtr ∉ s.mal.huActiveAllocs)
    (hlive : ∀ b ∈ s.mal.owned, b.region ∈ s.sys.arena.blocks)
    (hnodup : (s.mal.owned.map HuAllocInfo.sysPtr).Nodup) :
    ((storeAllocInfo (allocInfoAt c n ans.ptr) (fencedAt c ans n s hr)).mal.owned.map
      HuAllocInfo.sysPtr).Nodup := by
  rw [stored_owned hr hnew, List.map_cons, List.nodup_cons]
  refine ⟨fun hmem => ?_, hnodup⟩
  obtain ⟨d, hd, hdb⟩ := List.mem_map.mp hmem
  exact (hr.2.2 d.region (hlive d hd)).base_ne hdb.symm

/-- The addresses of the active blocks stay among those of `hu_user_addrs`. -/
theorem stored_addr (hr : s.sys.arena.Admits (fencedRegion c ans n))
    (hnew : (allocInfoAt c n ans.ptr).userPtr ∉ s.mal.huActiveAllocs)
    (haddr : ∀ k b, s.mal.huActiveAllocs.lookup k = some b → k ∈ s.mal.huUserAddrs) :
    ∀ k b, (storeAllocInfo (allocInfoAt c n ans.ptr)
      (fencedAt c ans n s hr)).mal.huActiveAllocs.lookup k = some b →
      k ∈ (storeAllocInfo (allocInfoAt c n ans.ptr) (fencedAt c ans n s hr)).mal.huUserAddrs := by
  intro k b hk
  rw [stored_active hr hnew, lookup_insert_eq_some] at hk
  simp only [storeAllocInfo, fencedAt_addrs, Finset.mem_insert]
  rcases hk with ⟨hkb, -⟩ | ⟨-, hold⟩
  · exact .inl hkb
  · exact .inr (haddr k b hold)

end Stored

namespace HeapInv

variable {Λ : Layout} {s s' : HuState} {L L' : ClientHeap}

/-- Owned blocks are told apart by their region. -/
theorem owned_inj (hi : HeapInv Λ s L) {b d : HuAllocInfo} (hb : b ∈ s.mal.owned)
    (hd : d ∈ s.mal.owned) (h : b.sysPtr = d.sysPtr) : b = d :=
  List.inj_on_of_nodup_map hi.owned_nodup hb hd h

/-- A held block lies in a live region. -/
theorem held_region (hi : HeapInv Λ s L) {p n : Nat} (h : s.Holds p n) :
    ∃ r ∈ s.sys.arena.blocks, r.Holds p := by
  rcases h with ⟨b, hb, -⟩ | h
  · have hown := MallocState.active_owned hb
    refine ⟨b.region, hi.owned_live b hown, ?_⟩
    rw [← hi.active_key p b hb]
    exact Λ.holds b (hi.owned_good b hown)
  · exact ⟨_, h, Block.holds_base _⟩

/-- An address inside a region that is being handed out is not held. -/
theorem fresh (hi : HeapInv Λ s L) {r : Region} (hr : s.sys.arena.Admits r) {q : Nat}
    (hq : r.Holds q) : q ∉ L.ptrs := by
  intro hmem
  obtain ⟨⟨p, n⟩, hp, rfl⟩ := List.mem_map.mp hmem
  obtain ⟨d, hd, hdp⟩ := hi.held_region (hi.client_held p n hp)
  exact hr.not_holds hd hdp hq

/-- The base of a pass-through region is the base of no owned region. -/
theorem malloc_ne_owned (hi : HeapInv Λ s L) {p n : Nat}
    (hp : (⟨p, n, .malloc⟩ : Region) ∈ s.sys.arena.blocks) {b : HuAllocInfo}
    (hb : b ∈ s.mal.owned) : b.sysPtr ≠ p := by
  have hne := s.sys.arena.base_ne_of_tag_ne hp (hi.owned_live b hb) Origin.noConfusion
  exact hne.symm

/-- Nor is it a user pointer. -/
theorem malloc_ne_userPtr (hi : HeapInv Λ s L) {p n : Nat}
    (hp : (⟨p, n, .malloc⟩ : Region) ∈ s.sys.arena.blocks) {b : HuAllocInfo}
    (hb : b ∈ s.mal.owned) : b.userPtr ≠ p := by
  rintro rfl
  exact s.sys.arena.not_holds_of_tag_ne hp (hi.owned_live b hb) Origin.noConfusion
    (Block.holds_base _) (Λ.holds b (hi.owned_good b hb))

/-- A block the program holds that is not active is a pass-through region. -/
theorem passed_through (hi : HeapInv Λ s L) {p : Nat} (hp : p ∈ L.ptrs)
    (hact : s.mal.huActiveAllocs.lookup p = none) :
    ∃ n, (p, n) ∈ L ∧ (⟨p, n, .malloc⟩ : Region) ∈ s.sys.arena.blocks := by
  obtain ⟨⟨q, n⟩, hq, rfl⟩ := List.mem_map.mp hp
  rcases hi.client_held q n hq with ⟨b, hb, -⟩ | h
  · rw [hact] at hb
    exact absurd hb (by simp)
  · exact ⟨n, hq, h⟩

/-- The size the program asked for is the size of the fenced block. -/
theorem fenced_size (hi : HeapInv Λ s L) {p n : Nat} (hp : (p, n) ∈ L) {b : HuAllocInfo}
    (hb : s.mal.huActiveAllocs.lookup p = some b) : b.userSize = n := by
  rcases hi.client_held p n hp with ⟨d, hd, hdn⟩ | hlive
  · rw [hb] at hd
    cases hd
    exact hdn
  · have hkey := hi.active_key p b hb
    exact absurd hkey (hi.malloc_ne_userPtr hlive (MallocState.active_owned hb))

/-- The invariant survives a step that gives up some owned blocks and some of
the program's blocks and keeps the rest as they were. -/
theorem shrink (hi : HeapInv Λ s L)
    (hsub : ∀ b ∈ s'.mal.owned, b ∈ s.mal.owned ∧ b.region ∈ s'.sys.arena.blocks)
    (hnd : (s'.mal.owned.map HuAllocInfo.sysPtr).Nodup)
    (hact : ∀ k b, s'.mal.huActiveAllocs.lookup k = some b →
      s.mal.huActiveAllocs.lookup k = some b)
    (haddr : s.mal.huUserAddrs ⊆ s'.mal.huUserAddrs)
    (hclient : ∀ p n, (p, n) ∈ L' → s'.Holds p n) (hnodup : L'.ptrs.Nodup) :
    HeapInv Λ s' L' where
  owned_good b hb := hi.owned_good b (hsub b hb).1
  owned_live b hb := (hsub b hb).2
  owned_nodup := hnd
  active_key k b h := hi.active_key k b (hact k b h)
  active_addr k b h := haddr (hi.active_addr k b (hact k b h))
  client_held := hclient
  client_nodup := hnodup

/-- A step that leaves the allocator's containers alone. -/
theorem same_tables (hi : HeapInv Λ s L)
    (hactive : s'.mal.huActiveAllocs = s.mal.huActiveAllocs)
    (hqueue : s'.mal.huQuarantineAllocs = s.mal.huQuarantineAllocs)
    (haddrs : s'.mal.huUserAddrs = s.mal.huUserAddrs)
    (hlive : ∀ b ∈ s.mal.owned, b.region ∈ s'.sys.arena.blocks)
    (hclient : ∀ p n, (p, n) ∈ L' → s'.Holds p n) (hnodup : L'.ptrs.Nodup) :
    HeapInv Λ s' L' := by
  have howned : s'.mal.owned = s.mal.owned := by
    simp only [MallocState.owned, hactive, hqueue]
  refine hi.shrink ?_ ?_ ?_ ?_ hclient hnodup
  · intro b hb
    rw [howned] at hb
    exact ⟨hb, hlive b hb⟩
  · rw [howned]
    exact hi.owned_nodup
  · intro k b h
    rwa [hactive] at h
  · rw [haddrs]

/-- Nothing the invariant looks at has changed. -/
theorem congr (hi : HeapInv Λ s L)
    (hactive : s'.mal.huActiveAllocs = s.mal.huActiveAllocs)
    (hqueue : s'.mal.huQuarantineAllocs = s.mal.huQuarantineAllocs)
    (haddrs : s'.mal.huUserAddrs = s.mal.huUserAddrs)
    (harena : s'.sys.arena = s.sys.arena) : HeapInv Λ s' L := by
  refine hi.same_tables hactive hqueue haddrs ?_ ?_ hi.client_nodup
  · intro b hb
    rw [harena]
    exact hi.owned_live b hb
  · intro p n hp
    have hheld := hi.client_held p n hp
    simp only [HuState.Holds, hactive, harena] at hheld ⊢
    exact hheld

/-- No block of the allocator has the user pointer null. -/
theorem userPtr_ne_zero (hi : HeapInv Λ s L) {b : HuAllocInfo} (hb : b ∈ s.mal.owned) :
    b.userPtr ≠ 0 :=
  s.sys.arena.ne_zero_of_holds (hi.owned_live b hb) (Λ.holds b (hi.owned_good b hb))

/-- Every active block has its address among those of `hu_user_addrs`. -/
theorem not_active_of_addr (hi : HeapInv Λ s L) {p : Nat} (haddr : p ∉ s.mal.huUserAddrs) :
    p ∉ s.mal.huActiveAllocs := by
  intro hmem
  obtain ⟨b, hb⟩ := exists_lookup hmem
  exact haddr (hi.active_addr p b hb)

/-! ## Calls of the C library -/

/-- A pass-through region handed to the program. -/
theorem receive_malloc (hi : HeapInv Λ s L) {n : Nat} {ans : SysAns} {fill : Nat → UInt8}
    (hr : s.sys.arena.Admits ⟨ans.ptr, n, .malloc⟩) :
    HeapInv Λ { s with sys := s.sys.granted ⟨ans.ptr, n, .malloc⟩ fill hr }
      (L.receive ans.ptr n) := by
  have hne : ans.ptr ≠ 0 := hr.base_ne_zero
  have hfresh := hi.fresh hr (Block.holds_base _)
  refine hi.same_tables rfl rfl rfl ?_ ?_ ?_
  · intro b hb
    simp only [SysHeap.mem_granted]
    exact .inr (hi.owned_live b hb)
  · intro p m hp
    simp only [ClientHeap.receive, hne, if_false, List.mem_cons] at hp
    simp only [HuState.Holds, SysHeap.mem_granted]
    rcases hp with hp | hp
    · cases hp
      exact .inr (.inl rfl)
    · exact (hi.client_held p m hp).imp id .inr
  · simp only [ClientHeap.receive, hne, if_false, ClientHeap.ptrs, List.map_cons, List.nodup_cons]
    exact ⟨hfresh, hi.client_nodup⟩

theorem libcMalloc_keeps (hi : HeapInv Λ s L) (ans : SysAns) (n : Nat) :
    HeapInv Λ (s.libcMalloc ans n).1 (L.receive (s.libcMalloc ans n).2 n) := by
  unfold HuState.libcMalloc
  rcases SysHeap.libcMalloc_cases ans s.sys n with h | ⟨hr, h⟩
  · simp only [h, ClientHeap.receive, if_true]
    exact hi
  · simp only [h]
    exact hi.receive_malloc hr

theorem libcCalloc_keeps (hi : HeapInv Λ s L) (ans : SysAns) (nmemb size : Nat) :
    HeapInv Λ (s.libcCalloc ans nmemb size).1
      (L.receive (s.libcCalloc ans nmemb size).2 (nmemb * size)) := by
  unfold HuState.libcCalloc
  rcases SysHeap.libcCalloc_cases ans s.sys nmemb size with h | ⟨-, hr, h⟩
  · simp only [h, ClientHeap.receive, if_true]
    exact hi
  · simp only [h]
    exact hi.receive_malloc hr

/-- The invariant without the block at a pass-through region that goes away. -/
theorem vacate (hi : HeapInv Λ s L) {p n : Nat}
    (hp : (⟨p, n, .malloc⟩ : Region) ∈ s.sys.arena.blocks)
    (hmal : s'.mal = s.mal) (harena : s'.sys.arena = s.sys.arena.release p) :
    HeapInv Λ s' (L.drop p) := by
  refine hi.same_tables (by rw [hmal]) (by rw [hmal]) (by rw [hmal]) ?_ ?_
    (ClientHeap.ptrs_drop_nodup p hi.client_nodup)
  · intro b hb
    rw [harena]
    exact (Arena.mem_release _ _ _).mpr ⟨hi.owned_live b hb, hi.malloc_ne_owned hp hb⟩
  · intro q m hq
    obtain ⟨hmem, hne⟩ := (ClientHeap.mem_drop hi.client_nodup).mp hq
    simp only [HuState.Holds, hmal, harena, Arena.mem_release]
    exact (hi.client_held q m hmem).imp id (fun h => ⟨h, hne⟩)

/-- `free` of a pass-through block. -/
theorem libcFree_keeps (hi : HeapInv Λ s L) {p n : Nat}
    (hp : (⟨p, n, .malloc⟩ : Region) ∈ s.sys.arena.blocks) :
    HeapInv Λ (s.libcFree p) (L.drop p) := by
  have hne : p ≠ 0 := s.sys.arena.base_ne_zero hp
  refine hi.vacate hp rfl ?_
  simp [HuState.libcFree, SysHeap.libcFree_of_ne _ hne]

/-- `realloc` of a pass-through block. -/
theorem libcRealloc_keeps (hi : HeapInv Λ s L) {p n : Nat}
    (hp : (⟨p, n, .malloc⟩ : Region) ∈ s.sys.arena.blocks) (ans : SysAns) (size : Nat) :
    HeapInv Λ (s.libcRealloc ans p size).1
      ((Call.realloc p size).after true (s.libcRealloc ans p size).2 L) := by
  have hne : p ≠ 0 := s.sys.arena.base_ne_zero hp
  have hfind := s.sys.arena.find_eq_some hp
  simp only at hfind
  have hvacated : HeapInv Λ { s with sys := s.sys.vacated p size } (L.drop p) :=
    hi.vacate hp rfl rfl
  unfold HuState.libcRealloc Call.after
  rcases SysHeap.libcRealloc_cases ans s.sys hne hfind size with ⟨hz, h⟩ | ⟨hz, h⟩ | ⟨hz, hn, h⟩
  · subst hz
    simp only [h, hne, if_false, ne_eq, not_true_eq_false, and_false, ClientHeap.receive, if_true]
    exact hvacated
  · simp only [h, hne, hz, if_false, ne_eq, not_false_eq_true, and_self, if_true]
    exact hi.congr rfl rfl rfl rfl
  · have hq : ans.ptr ≠ 0 := hn.base_ne_zero
    simp only [h, hne, hq, if_false, false_and]
    exact hvacated.receive_malloc hn

/-! ## `hu_malloc` and `hu_calloc` -/

/-- No active block has its user pointer in a region being handed out. -/
theorem not_active_of_admits (hi : HeapInv Λ s L) {r : Region} (hr : s.sys.arena.Admits r)
    {q : Nat} (hq : r.Holds q) : q ∉ s.mal.huActiveAllocs := by
  intro hmem
  obtain ⟨b, hb⟩ := exists_lookup hmem
  have hown := MallocState.active_owned hb
  have hholds := Λ.holds b (hi.owned_good b hown)
  rw [hi.active_key q b hb] at hholds
  exact hr.not_holds (hi.owned_live b hown) hholds hq

/-- A fenced block handed to the program. -/
theorem receive_fenced (hi : HeapInv Λ s L) {c : MallocConfig} {ans : SysAns} {n : Nat}
    (htakes : Λ.Takes c n) (halign : ans.ptr % c.huPageSize = 0)
    (hr : s.sys.arena.Admits (fencedRegion c ans n)) :
    HeapInv Λ (storeAllocInfo (allocInfoAt c n ans.ptr) (fencedAt c ans n s hr))
      (L.receive (allocInfoAt c n ans.ptr).userPtr n) := by
  have hgood := htakes ans.ptr halign hr.1 hr.2.1
  have hholds := Λ.holds _ hgood
  have hregion : (allocInfoAt c n ans.ptr).region = fencedRegion c ans n := rfl
  rw [hregion] at hholds
  have hfresh := hi.fresh hr hholds
  have hnew := hi.not_active_of_admits hr hholds
  have hne : (allocInfoAt c n ans.ptr).userPtr ≠ 0 := hr.ne_zero_of_holds hholds
  have hactive := stored_active hr hnew
  refine ⟨?_, stored_live hr hnew hi.owned_live, stored_nodup hr hnew hi.owned_live hi.owned_nodup,
    ?_, stored_addr hr hnew hi.active_addr, ?_, ?_⟩
  · intro d hd
    rw [stored_owned hr hnew] at hd
    rcases List.mem_cons.mp hd with rfl | hd
    · exact hgood
    · exact hi.owned_good d hd
  · intro k d hk
    rw [hactive, lookup_insert_eq_some] at hk
    rcases hk with ⟨hkb, rfl⟩ | ⟨-, hk⟩
    · exact hkb.symm
    · exact hi.active_key k d hk
  · intro p m hp
    simp only [ClientHeap.receive, hne, if_false, List.mem_cons] at hp
    have harena : (storeAllocInfo (allocInfoAt c n ans.ptr) (fencedAt c ans n s hr)).sys.arena =
        s.sys.arena.add (fencedRegion c ans n) hr := by
      simp only [storeAllocInfo, fencedAt_arena]
    simp only [HuState.Holds, hactive, harena, Arena.mem_add]
    rcases hp with hp | hp
    · cases hp
      exact .inl ⟨_, AList.lookup_insert _, rfl⟩
    · rcases hi.client_held p m hp with ⟨d, hd, hdm⟩ | hlive
      · have hpb : p ≠ (allocInfoAt c n ans.ptr).userPtr := by
          rintro rfl
          exact hnew (mem_of_lookup hd)
        exact .inl ⟨d, by rw [AList.lookup_insert_ne hpb]; exact hd, hdm⟩
      · exact .inr (.inr hlive)
  · simp only [ClientHeap.receive, hne, if_false, ClientHeap.ptrs, List.map_cons, List.nodup_cons]
    exact ⟨hfresh, hi.client_nodup⟩

/-- `hu_malloc`, whatever comes of it. -/
theorem huMalloc_keeps (hi : HeapInv Λ s L) (c : MallocConfig) (ans : SysAns) (n : Nat)
    (htakes : 0 < n → c.huMinsize ≤ n → Λ.Takes c n) :
    HeapInv Λ (huMalloc c ans n s).1 (L.receive (huMalloc c ans n s).2 n) := by
  rcases huMalloc_cases c ans n s with ⟨-, h⟩ | ⟨⟨-, hpos, hmin⟩, h | ⟨halign, hr, h⟩⟩
  · rw [h]
    exact hi.libcMalloc_keeps ans n
  · rw [h]
    simpa [ClientHeap.receive] using hi
  · rw [h]
    exact hi.receive_fenced (htakes hpos hmin) halign hr

/-- `hu_calloc`, whatever comes of it. -/
theorem huCalloc_keeps (hi : HeapInv Λ s L) (c : MallocConfig) (ans : SysAns) (count size : Nat)
    (hinit : s.mal.huMallocInited = true)
    (htakes : 0 < count * size → c.huMinsize ≤ count * size → Λ.Takes c (count * size)) :
    HeapInv Λ (huCalloc c ans count size s).1
      (L.receive (huCalloc c ans count size s).2 (count * size)) := by
  rcases huCalloc_cases c ans count size s hinit with ⟨-, h⟩ | ⟨-, h⟩ | ⟨-, -, h⟩
  · rw [h]
    exact hi.libcCalloc_keeps ans count size
  · rw [h]
    simpa [ClientHeap.receive] using hi
  · rw [h]
    exact (hi.huMalloc_keeps c ans (count * size) htakes).congr (by simp) (by simp) (by simp)
      (by simp)

/-! ## `hu_free` and `hu_realloc` -/

/-- The program gives up a block and the tool keeps everything. -/
theorem forget (hi : HeapInv Λ s L) (p : Nat) : HeapInv Λ s (L.drop p) :=
  hi.same_tables rfl rfl rfl hi.owned_live
    (fun q m hq => hi.client_held q m ((ClientHeap.mem_drop hi.client_nodup).mp hq).1)
    (ClientHeap.ptrs_drop_nodup p hi.client_nodup)

/-- Null is no block. -/
theorem null_not_held (hi : HeapInv Λ s L) : 0 ∉ L.ptrs := by
  intro hmem
  obtain ⟨⟨p, n⟩, hp, hp0⟩ := List.mem_map.mp hmem
  obtain ⟨r, hr, hrp⟩ := hi.held_region (hi.client_held p n hp)
  exact s.sys.arena.ne_zero_of_holds hr hrp hp0

/-- The region of an owned block that leaves the containers is released. -/
theorem release_owned (hi : HeapInv Λ s L) {b : HuAllocInfo}
    (howned : s.mal.owned.Perm (b :: s'.mal.owned))
    (hactive : s'.mal.huActiveAllocs = s.mal.huActiveAllocs)
    (haddrs : s'.mal.huUserAddrs = s.mal.huUserAddrs)
    (harena : s'.sys.arena = s.sys.arena.release b.sysPtr) : HeapInv Λ s' L := by
  have hb : b ∈ s.mal.owned := howned.mem_iff.mpr (List.mem_cons_self ..)
  obtain ⟨hnodup, hothers⟩ := MallocState.owned_shed howned hi.owned_nodup
  refine hi.shrink ?_ hnodup (by rw [hactive]; exact fun _ _ h => h) (by rw [haddrs]) ?_
    hi.client_nodup
  · intro d hd
    obtain ⟨hd, hbase⟩ := hothers d hd
    rw [harena, Arena.mem_release]
    exact ⟨hd, hi.owned_live d hd, hbase⟩
  · intro p n hp
    simp only [HuState.Holds, hactive, harena, Arena.mem_release]
    exact (hi.client_held p n hp).imp id
      (fun h => ⟨h, fun hpb => hi.malloc_ne_owned h hb hpb.symm⟩)

/-- An active block leaves the table and the program gives it up. -/
theorem retire (hi : HeapInv Λ s L) (p : Nat)
    (hsub : ∀ d ∈ s'.mal.owned, d ∈ s.mal.owned ∧ d.region ∈ s'.sys.arena.blocks)
    (hnd : (s'.mal.owned.map HuAllocInfo.sysPtr).Nodup)
    (hactive : s'.mal.huActiveAllocs = s.mal.huActiveAllocs.erase p)
    (haddrs : s'.mal.huUserAddrs = s.mal.huUserAddrs)
    (hmalloc : ∀ r ∈ s.sys.arena.blocks, r.tag = .malloc → r ∈ s'.sys.arena.blocks) :
    HeapInv Λ s' (L.drop p) := by
  refine hi.shrink hsub hnd ?_ (by rw [haddrs]) ?_ (ClientHeap.ptrs_drop_nodup p hi.client_nodup)
  · intro k d h
    rw [hactive, lookup_erase_eq_some] at h
    exact h.2
  · intro q m hq
    obtain ⟨hmem, hne⟩ := (ClientHeap.mem_drop hi.client_nodup).mp hq
    simp only [HuState.Holds, hactive, AList.lookup_erase_ne hne]
    exact (hi.client_held q m hmem).imp id (fun h => hmalloc _ h rfl)

/-- It joins the queue: the containers hold the same blocks as before. -/
theorem retire_to_queue (hi : HeapInv Λ s L) {p : Nat} {b : HuAllocInfo}
    (hb : s.mal.huActiveAllocs.lookup p = some b)
    (hactive : s'.mal.huActiveAllocs = s.mal.huActiveAllocs.erase p)
    (hqueue : s'.mal.huQuarantineAllocs = s.mal.huQuarantineAllocs ++ [b])
    (haddrs : s'.mal.huUserAddrs = s.mal.huUserAddrs)
    (harena : s'.sys.arena = s.sys.arena) : HeapInv Λ s' (L.drop p) := by
  have howned := MallocState.owned_join hb hactive hqueue
  refine hi.retire p ?_ ((howned.map _).symm.nodup hi.owned_nodup) hactive haddrs ?_
  · intro d hd
    rw [harena]
    exact ⟨howned.mem_iff.mp hd, hi.owned_live d (howned.mem_iff.mp hd)⟩
  · intro r hr _
    rw [harena]
    exact hr

/-- It goes straight back to the system. -/
theorem retire_to_system (hi : HeapInv Λ s L) {p : Nat} {b : HuAllocInfo}
    (hb : s.mal.huActiveAllocs.lookup p = some b)
    (hactive : s'.mal.huActiveAllocs = s.mal.huActiveAllocs.erase p)
    (hqueue : s'.mal.huQuarantineAllocs = s.mal.huQuarantineAllocs)
    (haddrs : s'.mal.huUserAddrs = s.mal.huUserAddrs)
    (harena : s'.sys.arena = s.sys.arena.release b.sysPtr) : HeapInv Λ s' (L.drop p) := by
  have howned : s.mal.owned.Perm (b :: s'.mal.owned) := by
    simp only [MallocState.owned, hactive, hqueue]
    exact (values_perm_erase hb).append_right _
  obtain ⟨hnodup, hothers⟩ := MallocState.owned_shed howned hi.owned_nodup
  refine hi.retire p ?_ hnodup hactive haddrs ?_
  · intro d hd
    obtain ⟨hd, hbase⟩ := hothers d hd
    rw [harena, Arena.mem_release]
    exact ⟨hd, hi.owned_live d hd, hbase⟩
  · intro r hr htag
    rw [harena, Arena.mem_release]
    have hlive := hi.owned_live b (MallocState.active_owned hb)
    exact ⟨hr, s.sys.arena.base_ne_of_tag_ne hr hlive (by rw [htag]; exact Origin.noConfusion)⟩

/-- The region of an owned block does not start at null. -/
theorem sysPtr_ne_zero (hi : HeapInv Λ s L) {b : HuAllocInfo} (hb : b ∈ s.mal.owned) :
    b.sysPtr ≠ 0 := s.sys.arena.base_ne_zero (hi.owned_live b hb)

theorem evictFront_keeps (hi : HeapInv Λ s L) (c : MallocConfig) (lc : LogConfig) (ans : SysAns)
    {info : HuAllocInfo} {rest : List HuAllocInfo}
    (hq : s.mal.huQuarantineAllocs = info :: rest) :
    HeapInv Λ (evictFront c lc ans info s) L := by
  have hown : info ∈ s.mal.owned :=
    MallocState.queue_owned (by rw [hq]; exact List.mem_cons_self ..)
  refine hi.release_owned (b := info) ?_ rfl rfl ?_
  · simp only [MallocState.owned, evictFront_active, evictFront_queue, hq, List.tail_cons]
    exact List.perm_middle
  · rw [evictFront_sys, SysHeap.libcFree_of_ne _ (hi.sysPtr_ne_zero hown), huMprotect_arena]

theorem quarantine_keeps (hi : HeapInv Λ s L) (c : MallocConfig) (lc : LogConfig) (ans : SysAns)
    {p : Nat} {b : HuAllocInfo} (hb : s.mal.huActiveAllocs.lookup p = some b) :
    HeapInv Λ (quarantine c lc ans b
      { s with mal := { s.mal with huActiveAllocs := s.mal.huActiveAllocs.erase p } })
      (L.drop p) := by
  unfold quarantine
  refine evictLoop_invariant c lc ans (P := fun s => HeapInv Λ s (L.drop p))
    (fun info rest s hq hs => hs.evictFront_keeps c lc ans hq) _ _ rfl ?_
  exact hi.retire_to_queue hb rfl rfl rfl (by simp)

/-- What `hu_free` hands to the C library is a pass-through block. -/
theorem unfenced_live (hi : HeapInv Λ s L) {p : Nat} (hne : p ≠ 0)
    (hp : p = 0 ∨ p ∈ L.ptrs ∨ p ∈ s.mal.huUserAddrs) (haddr : p ∉ s.mal.huUserAddrs) :
    ∃ n, (⟨p, n, .malloc⟩ : Region) ∈ s.sys.arena.blocks := by
  have hmem : p ∈ L.ptrs := by
    rcases hp with hp | hp | hp
    · exact absurd hp hne
    · exact hp
    · exact absurd hp haddr
  have hact := AList.lookup_eq_none.mpr (hi.not_active_of_addr haddr)
  obtain ⟨n, -, hlive⟩ := hi.passed_through hmem hact
  exact ⟨n, hlive⟩

/-- `hu_free` of null, of a block of the program, or of an address that was
ever a fenced block. -/
theorem huFree_keeps (hi : HeapInv Λ s L) (c : MallocConfig) (lc : LogConfig) (ans : SysAns)
    (p : Nat) (hinit : s.mal.huMallocInited = true)
    (hp : p = 0 ∨ p ∈ L.ptrs ∨ p ∈ s.mal.huUserAddrs) :
    HeapInv Λ (huFree c lc ans p s) (L.drop p) := by
  rcases huFree_cases c lc ans p s hinit with ⟨-, h⟩ | ⟨hne, haddr, h⟩ | ⟨-, -, -, h⟩ |
    ⟨-, -, b, hb, h⟩
  · rw [h]
    exact hi.forget p
  · obtain ⟨n, hlive⟩ := hi.unfenced_live hne hp haddr
    rw [h]
    exact hi.libcFree_keeps hlive
  · rw [h]
    exact hi.forget p
  · rw [h]
    cases c.huUseafterfree with
    | true => exact hi.quarantine_keeps c lc ans hb
    | false =>
      have hbase := hi.sysPtr_ne_zero (MallocState.active_owned hb)
      refine hi.retire_to_system hb rfl rfl rfl ?_
      simp [HuState.libcFree, SysHeap.libcFree_of_ne _ hbase]

/-- `hu_realloc` between the copy and the release of the old block. -/
theorem reallocCopied_keeps (hi : HeapInv Λ s L) (c : MallocConfig) (ans : SysAns)
    (b : HuAllocInfo) (n : Nat) (htakes : 0 < n → c.huMinsize ≤ n → Λ.Takes c n) :
    HeapInv Λ (reallocCopied c ans b n s) (L.receive (huMalloc c ans n s).2 n) :=
  (hi.huMalloc_keeps c ans n htakes).congr (by simp) (by simp) (by simp) (by simp)

/-- What `hu_malloc` returns is no block the program holds. -/
theorem huMalloc_ne (hi : HeapInv Λ s L) (c : MallocConfig) (ans : SysAns) (n : Nat)
    (htakes : 0 < n → c.huMinsize ≤ n → Λ.Takes c n) {p : Nat} (hp : p ∈ L.ptrs) :
    p ≠ (huMalloc c ans n s).2 := by
  rintro rfl
  have hq : (huMalloc c ans n s).2 ≠ 0 := fun h0 => hi.null_not_held (h0 ▸ hp)
  exact ClientHeap.receive_fresh (hi.huMalloc_keeps c ans n htakes).client_nodup hq hp

/-- `hu_realloc` of null or of a block of the program. -/
theorem huRealloc_keeps (hi : HeapInv Λ s L) (c : MallocConfig) (lc : LogConfig) (ans : SysAns)
    (p n : Nat) (hinit : s.mal.huMallocInited = true) (hp : p = 0 ∨ p ∈ L.ptrs)
    (htakes : 0 < n → c.huMinsize ≤ n → Λ.Takes c n) :
    HeapInv Λ (huRealloc c lc ans p n s).1
      ((Call.realloc p n).after (s.mal.huActiveAllocs.lookup p).isNone
        (huRealloc c lc ans p n s).2 L) := by
  rcases huRealloc_cases c lc ans p n s hinit with ⟨hp0, h⟩ | ⟨hne, hn, h⟩ |
    ⟨hne, hn, b, hb, h⟩ | ⟨hne, hn, hb, h⟩
  · rw [h]
    simp only [Call.after, hp0, if_true]
    exact hi.huMalloc_keeps c ans n htakes
  · rw [h]
    simp only [Call.after, hne, hn, if_false, ne_eq, not_true_eq_false, and_false,
      ClientHeap.receive, if_true]
    exact hi.huFree_keeps c lc ans p hinit (.inr (.inl (hp.resolve_left hne)))
  · have hmem := hp.resolve_left hne
    have hcopied := hi.reallocCopied_keeps c ans b n htakes
    have hfreed := hcopied.huFree_keeps c lc ans p (by simpa using hinit)
      (.inr (.inl (ClientHeap.mem_ptrs_receive hmem)))
    rw [h, hb]
    simp only [Call.after, hne, hn, if_false, ne_eq, not_false_eq_true, and_true,
      Option.isNone_some, Bool.false_eq_true]
    by_cases hq : (huMalloc c ans n s).2 = 0
    · rw [if_pos hq]
      simpa only [hq, ClientHeap.receive, if_true] using hfreed
    · have hqp : (huMalloc c ans n s).2 ≠ p := (hi.huMalloc_ne c ans n htakes hmem).symm
      rw [if_neg hq, ← ClientHeap.drop_receive hqp]
      exact hfreed
  · have hlive := hi.passed_through (hp.resolve_left hne) hb
    obtain ⟨m, -, hlive⟩ := hlive
    rw [h, hb]
    exact hi.libcRealloc_keeps hlive ans n

/-! ## Whole calls -/

/-- **The fenced allocator keeps the invariant.** -/
theorem huCall_keeps (hi : HeapInv Λ s L) (c : MallocConfig) (lc : LogConfig) (ans : SysAns)
    (call : Call) (hinit : s.mal.huMallocInited = true) (hcall : call.Handled s L)
    (htakes : 0 < call.requested → c.huMinsize ≤ call.requested → Λ.Takes c call.requested) :
    HeapInv Λ (huCall c lc ans call s).1
      (call.after (s.keeps call) (huCall c lc ans call s).2 L) := by
  cases call with
  | malloc size => exact hi.huMalloc_keeps c ans size htakes
  | free ptr => exact hi.huFree_keeps c lc ans ptr hinit hcall
  | calloc nmemb size => exact hi.huCalloc_keeps c ans nmemb size hinit htakes
  | realloc ptr size => exact hi.huRealloc_keeps c lc ans ptr size hinit hcall htakes

/-- A call of the C library on null or on a block that is not fenced. -/
theorem libcCall_keeps (hi : HeapInv Λ s L) (ans : SysAns) (call : Call)
    (hcall : call.Permitted L) (hact : call.argument ∉ s.mal.huActiveAllocs) :
    HeapInv Λ (libcCall ans call s).1 (call.after true (libcCall ans call s).2 L) := by
  have hlook := AList.lookup_eq_none.mpr hact
  cases call with
  | malloc size => exact hi.libcMalloc_keeps ans size
  | calloc nmemb size => exact hi.libcCalloc_keeps ans nmemb size
  | free ptr =>
    rcases hcall with h | h
    · simp only [Call.argument] at h
      subst h
      exact hi.forget 0
    · obtain ⟨n, -, hlive⟩ := hi.passed_through h hlook
      exact hi.libcFree_keeps hlive
  | realloc ptr size =>
    rcases hcall with h | h
    · simp only [Call.argument] at h
      subst h
      exact hi.libcMalloc_keeps ans size
    · obtain ⟨n, -, hlive⟩ := hi.passed_through h hlook
      exact hi.libcRealloc_keeps hlive ans size

/-- The program does not hold the block of a foreign pointer. -/
theorem not_held_of_foreign (hi : HeapInv Λ s L) {p : Nat} (hp : p = 0 ∨ s.Foreign p) :
    p ∉ L.ptrs := by
  intro hmem
  have h0 : p ≠ 0 := fun h0 => hi.null_not_held (h0 ▸ hmem)
  obtain ⟨hbased, haddr⟩ := hp.resolve_left h0
  have hact := AList.lookup_eq_none.mpr (hi.not_active_of_addr haddr)
  obtain ⟨n, -, hlive⟩ := hi.passed_through hmem hact
  exact hbased ⟨_, hlive, rfl⟩

/-- The free of a foreign block, which the C library serves. -/
theorem foreign_keeps (hi : HeapInv Λ s L) {p : Nat} (hp : p = 0 ∨ s.Foreign p) :
    HeapInv Λ (s.libcFree p) (L.drop p) := by
  rw [ClientHeap.drop_of_not_mem (hi.not_held_of_foreign hp)]
  exact hi.congr rfl rfl rfl (libcFree_foreign hp)

/-- A state with nothing in it. -/
theorem of_empty (hactive : s.mal.huActiveAllocs = ∅) (hqueue : s.mal.huQuarantineAllocs = []) :
    HeapInv Λ s [] := by
  have howned : s.mal.owned = [] := by simp [MallocState.owned, hactive, hqueue]
  refine ⟨?_, ?_, ?_, ?_, ?_, ?_, ?_⟩ <;> simp [howned, hactive, ClientHeap.ptrs]

end HeapInv

end Heapusage
