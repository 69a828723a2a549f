/-
Heapusage.Client.Conservation — where every region of `posix_memalign` is, and
what its pages allow.

§1 Ledger — the history of the system heap read as two lists: the regions
            obtained and the regions passed back to `free`.
§2 Pages  — the protection map is painted by the blocks of the two containers
            (`PageInv`); one lemma per way a block moves between them.
§3 Calls  — every call of the fenced allocator keeps the picture
            (`PageInv.huCall_keeps`).
§4 Runs   — the picture in every state of every run, and what it says of each
            region (`AllocInv.conserved`).
-/
import Heapusage.Client.HeapInvariant
import Heapusage.Lib.Run
import Heapusage.Lib.Zones

namespace Heapusage

open Arenas Runs Tables Words Zones

/-! ## §1 Ledger -/

/-- The regions obtained by `posix_memalign`, newest first. -/
def SysHeap.memaligned (h : SysHeap) : List Region :=
  h.calls.filterMap fun
    | .memalign r => some r
    | _ => none

/-- The regions of `posix_memalign` passed to `free`, newest first. -/
def SysHeap.returned (h : SysHeap) : List Region :=
  h.calls.filterMap fun
    | .free _ (some r) _ => if r.tag = .memalign then some r else none
    | _ => none

/-- A call into the C library that the allocator may make. A region of
`posix_memalign` is passed to `free` alone, at its base and with all its pages
readable and writable. -/
def SysCall.Proper : SysCall → Prop
  | .memalign _ => True
  | .free p r prot => ∃ r', r = some r' ∧ r'.base = p ∧
      (r'.tag = .memalign → ∀ a, r'.base ≤ a → a < r'.base + r'.size → prot a = .readWrite)
  | .realloc p _ r => ∃ r', r = some r' ∧ r'.base = p ∧ r'.tag = .malloc

/-! ## §2 Pages -/

/-- The pages of an active block: all accessible but the fence. -/
def activeZone (c : MallocConfig) (b : HuAllocInfo) : Zone Prot :=
  ⟨b.sysPtr, b.sysPtr + b.sysSize,
    fun a => if a < b.sysPtr + b.sysSize - c.fence then .readWrite else .none⟩

/-- The pages of a quarantined block: none accessible. -/
def queuedZone (b : HuAllocInfo) : Zone Prot :=
  ⟨b.sysPtr, b.sysPtr + b.sysSize, fun _ => .none⟩

/-- The zones of the two containers. -/
def MallocState.zones (c : MallocConfig) (m : MallocState) : List (Zone Prot) :=
  (values m.huActiveAllocs).map (activeZone c) ++ m.huQuarantineAllocs.map queuedZone

/-- What a zone covers is in the region of its block. -/
theorem MallocState.zone_region {c : MallocConfig} {m : MallocState} {z : Zone Prot}
    (hz : z ∈ m.zones c) {a : Nat} (ha : z.Covers a) : ∃ b ∈ m.owned, b.region.Holds a := by
  rw [MallocState.zones, List.mem_append, List.mem_map, List.mem_map] at hz
  rcases hz with ⟨b, hb, rfl⟩ | ⟨b, hb, rfl⟩
  · exact ⟨b, List.mem_append_left _ hb, b.region_holds_of_lt ha.1 ha.2⟩
  · exact ⟨b, List.mem_append_right _ hb, b.region_holds_of_lt ha.1 ha.2⟩

/-- The regions of the two containers. -/
def MallocState.regions (m : MallocState) : List Region := m.owned.map HuAllocInfo.region

/-- The picture of the pages, the conservation of regions, and the discipline
of the calls made so far. -/
structure PageInv (c : MallocConfig) (s : HuState) : Prop where
  painted : Painted .readWrite (s.mal.zones c) s.sys.prot
  ledger : s.sys.memaligned.Perm (s.mal.regions ++ s.sys.returned)
  proper : ∀ call ∈ s.sys.calls, call.Proper

namespace PageInv

variable {c : MallocConfig} {s s' : HuState} {L : ClientHeap} {Λ : Layout}

/-- Nothing the picture depends on has changed. -/
theorem congr (h : PageInv c s) (hactive : s'.mal.huActiveAllocs = s.mal.huActiveAllocs)
    (hqueue : s'.mal.huQuarantineAllocs = s.mal.huQuarantineAllocs)
    (hprot : s'.sys.prot = s.sys.prot) (hcalls : s'.sys.calls = s.sys.calls) : PageInv c s' := by
  refine ⟨?_, ?_, ?_⟩
  · rw [hprot, MallocState.zones, hactive, hqueue]
    exact h.painted
  · rw [MallocState.regions, MallocState.owned, SysHeap.memaligned, SysHeap.returned, hactive,
      hqueue, hcalls]
    exact h.ledger
  · rw [hcalls]
    exact h.proper

/-- A call about a pass-through region is recorded. -/
theorem record (h : PageInv c s) {call : SysCall} (hproper : call.Proper)
    (hmem : ∀ r, call ≠ .memalign r)
    (hfree : ∀ p r prot, call = .free p (some r) prot → r.tag = .malloc)
    (hmal : s'.mal = s.mal) (hprot : s'.sys.prot = s.sys.prot)
    (hcalls : s'.sys.calls = call :: s.sys.calls) : PageInv c s' := by
  have hmemaligned : s'.sys.memaligned = s.sys.memaligned := by
    rw [SysHeap.memaligned, hcalls]
    cases call with
    | memalign r => exact absurd rfl (hmem r)
    | free p r prot => rfl
    | realloc p n r => rfl
  have hreturned : s'.sys.returned = s.sys.returned := by
    rw [SysHeap.returned, hcalls]
    cases call with
    | memalign r => rfl
    | realloc p n r => rfl
    | free p r prot =>
      cases r with
      | none => rfl
      | some r =>
        have htag := hfree p r prot rfl
        rw [List.filterMap_cons]
        simp only [htag, reduceCtorEq, if_false]
        rfl
  refine ⟨?_, ?_, ?_⟩
  · rw [hmal, hprot]
    exact h.painted
  · rw [hmal, hmemaligned, hreturned]
    exact h.ledger
  · rw [hcalls]
    intro d hd
    rcases List.mem_cons.mp hd with rfl | hd
    · exact hproper
    · exact h.proper d hd

/-! ### The C library -/

theorem libcMalloc_keeps (h : PageInv c s) (ans : SysAns) (n : Nat) :
    PageInv c (s.libcMalloc ans n).1 := by
  unfold HuState.libcMalloc
  rcases SysHeap.libcMalloc_cases ans s.sys n with heq | ⟨hr, heq⟩
  · rw [heq]
    exact h
  · rw [heq]
    exact h.congr rfl rfl rfl rfl

theorem libcCalloc_keeps (h : PageInv c s) (ans : SysAns) (nmemb size : Nat) :
    PageInv c (s.libcCalloc ans nmemb size).1 := by
  unfold HuState.libcCalloc
  rcases SysHeap.libcCalloc_cases ans s.sys nmemb size with heq | ⟨-, hr, heq⟩
  · rw [heq]
    exact h
  · rw [heq]
    exact h.congr rfl rfl rfl rfl

theorem libcFree_keeps (h : PageInv c s) {p n : Nat}
    (hp : (⟨p, n, .malloc⟩ : Region) ∈ s.sys.arena.blocks) : PageInv c (s.libcFree p) := by
  have hne : p ≠ 0 := s.sys.arena.base_ne_zero hp
  have hfind := s.sys.arena.find_eq_some hp
  simp only at hfind
  have hproper : (SysCall.free p (some ⟨p, n, .malloc⟩) s.sys.prot).Proper :=
    ⟨_, rfl, rfl, fun htag => Origin.noConfusion htag⟩
  refine h.record hproper ?_ ?_ rfl ?_ ?_
  · intro r hr
    exact SysCall.noConfusion hr
  · intro q r prot hcall
    cases hcall
    rfl
  · simp [HuState.libcFree]
  · simp [HuState.libcFree, SysHeap.libcFree_of_ne _ hne, hfind]

theorem libcRealloc_keeps (h : PageInv c s) {p n : Nat}
    (hp : (⟨p, n, .malloc⟩ : Region) ∈ s.sys.arena.blocks) (ans : SysAns) (size : Nat) :
    PageInv c (s.libcRealloc ans p size).1 := by
  have hne : p ≠ 0 := s.sys.arena.base_ne_zero hp
  have hfind := s.sys.arena.find_eq_some hp
  simp only at hfind
  have hrec : ∀ s' : HuState, s'.mal = s.mal → s'.sys.prot = s.sys.prot →
      s'.sys.calls = .realloc p size (s.sys.arena.find p) :: s.sys.calls → PageInv c s' := by
    intro s' hmal hprot hcalls
    refine h.record ?_ ?_ ?_ hmal hprot hcalls
    · exact ⟨_, hfind, rfl, rfl⟩
    · intro r hr
      exact SysCall.noConfusion hr
    · intro q r prot hcall
      exact SysCall.noConfusion hcall
  unfold HuState.libcRealloc
  rcases SysHeap.libcRealloc_cases ans s.sys hne hfind size with ⟨-, heq⟩ | ⟨-, heq⟩ | ⟨-, hn, heq⟩
  · rw [heq]
    exact hrec _ rfl rfl rfl
  · rw [heq]
    exact hrec _ rfl rfl rfl
  · rw [heq]
    exact hrec _ rfl rfl rfl

/-! ### The blocks -/

/-- A block gets its region. -/
theorem obtain_region (h : PageInv c s) (hi : HeapInv Λ s L) {b : HuAllocInfo}
    (hr : s.sys.arena.Admits b.region)
    (hzones : s'.mal.zones c = activeZone c b :: s.mal.zones c)
    (howned : s'.mal.owned = b :: s.mal.owned)
    (hprot : ∀ a, s'.sys.prot a =
      if b.sysPtr + b.sysSize - c.fence ≤ a ∧ a < b.sysPtr + b.sysSize ∧ 0 < c.fence then .none
      else s.sys.prot a)
    (hfence : c.fence ≤ b.sysSize)
    (hcalls : s'.sys.calls = .memalign b.region :: s.sys.calls) : PageInv c s' := by
  have hapart : ∀ y ∈ s.mal.zones c, (activeZone c b).Apart y := by
    intro y hy a ha hya
    obtain ⟨d, hd, hda⟩ := MallocState.zone_region hy hya
    exact hr.not_holds (hi.owned_live d hd) hda (b.region_holds_of_lt ha.1 ha.2)
  refine ⟨?_, ?_, ?_⟩
  · rw [hzones]
    refine h.painted.add hapart ?_ ?_
    · intro a ha
      have hfresh := h.painted.fresh hapart ha
      obtain ⟨ha1, ha2⟩ : b.sysPtr ≤ a ∧ a < b.sysPtr + b.sysSize := ha
      rw [hprot a, hfresh]
      simp only [activeZone]
      by_cases hin : a < b.sysPtr + b.sysSize - c.fence
      · rw [if_pos hin, if_neg (by omega)]
      · rw [if_neg hin, if_pos (by omega)]
    · intro a ha
      have ha' : ¬ (b.sysPtr ≤ a ∧ a < b.sysPtr + b.sysSize) := ha
      rw [hprot a, if_neg (by omega)]
  · have hmem : s'.sys.memaligned = b.region :: s.sys.memaligned := by
      rw [SysHeap.memaligned, hcalls]
      rfl
    have hret : s'.sys.returned = s.sys.returned := by
      rw [SysHeap.returned, hcalls]
      rfl
    rw [hmem, hret, MallocState.regions, howned]
    exact h.ledger.cons b.region
  · rw [hcalls]
    intro d hd
    rcases List.mem_cons.mp hd with rfl | hd
    · exact trivial
    · exact h.proper d hd

/-- A block moves to the queue. -/
theorem lock_region (h : PageInv c s) {b : HuAllocInfo} {zs : List (Zone Prot)}
    (hzones : (s.mal.zones c).Perm (activeZone c b :: zs))
    (hzones' : (s'.mal.zones c).Perm (queuedZone b :: zs))
    (howned : s'.mal.owned.Perm s.mal.owned)
    (hprot : ∀ a, s'.sys.prot a =
      if b.sysPtr ≤ a ∧ a < b.sysPtr + b.sysSize then .none else s.sys.prot a)
    (hcalls : s'.sys.calls = s.sys.calls) : PageInv c s' := by
  refine ⟨?_, ?_, ?_⟩
  · refine Painted.perm ?_ hzones'.symm
    refine (h.painted.perm hzones).repaint rfl rfl ?_ ?_
    · intro a ha
      rw [hprot a]
      exact if_pos ha
    · intro a ha
      rw [hprot a]
      exact if_neg ha
  · rw [SysHeap.memaligned, SysHeap.returned, hcalls]
    exact h.ledger.trans ((howned.symm.map _).append_right _)
  · rw [hcalls]
    exact h.proper

/-- A block's region goes back to the system, accessible again. -/
theorem return_region (h : PageInv c s) {b : HuAllocInfo} {z : Zone Prot}
    (hlo : z.lo = b.sysPtr) (hhi : z.hi = b.sysPtr + b.sysSize)
    (hzones : (s.mal.zones c).Perm (z :: s'.mal.zones c))
    (howned : s.mal.owned.Perm (b :: s'.mal.owned))
    (hprot : ∀ a, s'.sys.prot a =
      if b.sysPtr ≤ a ∧ a < b.sysPtr + b.sysSize then .readWrite else s.sys.prot a)
    (hcalls : s'.sys.calls = .free b.sysPtr (some b.region) s'.sys.prot :: s.sys.calls) :
    PageInv c s' := by
  have hcov : ∀ a, z.Covers a ↔ b.sysPtr ≤ a ∧ a < b.sysPtr + b.sysSize := by
    intro a
    rw [Zone.Covers, hlo, hhi]
  refine ⟨?_, ?_, ?_⟩
  · refine (h.painted.perm hzones).wipe ?_ ?_
    · intro a ha
      rw [hprot a, if_pos ((hcov a).mp ha)]
    · intro a ha
      rw [hprot a, if_neg fun hc => ha ((hcov a).mpr hc)]
  · have hmem : s'.sys.memaligned = s.sys.memaligned := by
      rw [SysHeap.memaligned, hcalls]
      rfl
    have hret : s'.sys.returned = b.region :: s.sys.returned := by
      rw [SysHeap.returned, hcalls]
      rfl
    rw [hmem, hret, MallocState.regions]
    calc s.sys.memaligned.Perm (s.mal.owned.map HuAllocInfo.region ++ s.sys.returned) := h.ledger
      _ |>.Perm ((b :: s'.mal.owned).map HuAllocInfo.region ++ s.sys.returned) :=
          (howned.map _).append_right _
      _ |>.Perm (s'.mal.owned.map HuAllocInfo.region ++ b.region :: s.sys.returned) :=
          List.perm_middle.symm
  · rw [hcalls]
    intro d hd
    rcases List.mem_cons.mp hd with rfl | hd
    · refine ⟨_, rfl, rfl, fun _ a ha1 ha2 => ?_⟩
      rw [hprot a, if_pos ⟨ha1, ha2⟩]
    · exact h.proper d hd

/-! ## §3 Calls -/

section Calls

variable (ans : SysAns) (hok : ∀ addr len prot, ans.mprotectOk addr len prot = true)
include hok

theorem huMalloc_keeps (h : PageInv c s) (hi : HeapInv (.shaped c) s L) (n : Nat)
    (hfit : 0 < n → c.huMinsize ≤ n → c.Fits n) : PageInv c (huMalloc c ans n s).1 := by
  rcases huMalloc_cases c ans n s with ⟨-, heq⟩ | ⟨⟨-, hpos, hmin⟩, heq | ⟨halign, hr, heq⟩⟩
  · rw [heq]
    exact h.libcMalloc_keeps ans n
  · rw [heq]
    exact h
  · have hfit := hfit hpos hmin
    have hgood := hfit.takes hpos ans.ptr halign hr.1 hr.2.1
    have hholds : (fencedRegion c ans n).Holds (allocInfoAt c n ans.ptr).userPtr :=
      (Layout.shaped c).holds _ hgood
    have hnew := hi.not_active_of_admits hr hholds
    have hsize : (allocInfoAt c n ans.ptr).sysSize = c.exactSysSize n := hfit.sysSize
    rw [heq]
    refine h.obtain_region hi (b := allocInfoAt c n ans.ptr) hr ?_ ?_ ?_ ?_ ?_
    · simp only [MallocState.zones, storeAllocInfo, fencedAt_active, fencedAt_queue,
        insertNew_of_not_mem hnew, values_insert_of_not_mem hnew, List.map_cons, List.cons_append]
    · exact stored_owned hr hnew
    · intro a
      rw [hsize]
      exact fencedAt_prot c ans n s hr hfit halign hok a
    · rw [hsize, MallocConfig.exactSysSize]
      omega
    · exact fencedAt_calls c ans n s hr

theorem huCalloc_keeps (h : PageInv c s) (hi : HeapInv (.shaped c) s L) (count size : Nat)
    (hinit : s.mal.huMallocInited = true)
    (hfit : 0 < count * size → c.huMinsize ≤ count * size → c.Fits (count * size)) :
    PageInv c (huCalloc c ans count size s).1 := by
  rcases huCalloc_cases c ans count size s hinit with ⟨-, heq⟩ | ⟨-, heq⟩ | ⟨-, -, heq⟩
  · rw [heq]
    exact h.libcCalloc_keeps ans count size
  · rw [heq]
    exact h
  · rw [heq]
    exact (h.huMalloc_keeps ans hok hi (count * size) hfit).congr (by simp) (by simp) (by simp)
      (by simp)

theorem evictFront_keeps (h : PageInv c s) (hi : HeapInv Λ s L) (lc : LogConfig)
    {info : HuAllocInfo} {rest : List HuAllocInfo}
    (hq : s.mal.huQuarantineAllocs = info :: rest) : PageInv c (evictFront c lc ans info s) := by
  have hown : info ∈ s.mal.owned :=
    MallocState.queue_owned (by rw [hq]; exact List.mem_cons_self ..)
  have hne := hi.sysPtr_ne_zero hown
  have hfind : s.sys.arena.find info.sysPtr = some info.region :=
    s.sys.arena.find_eq_some (hi.owned_live info hown)
  refine h.return_region (b := info) (z := queuedZone info) rfl rfl ?_ ?_ ?_ ?_
  · simp only [MallocState.zones, evictFront_active, evictFront_queue, hq, List.tail_cons,
      List.map_cons]
    exact List.perm_middle
  · simp only [MallocState.owned, evictFront_active, evictFront_queue, hq, List.tail_cons]
    exact List.perm_middle
  · intro a
    rw [evictFront_sys, SysHeap.libcFree_prot, huMprotect_prot c ans _ _ _ _ (hok _ _ _)]
  · rw [evictFront_sys, SysHeap.libcFree_of_ne _ hne]
    simp only [huMprotect_arena, huMprotect_calls, hfind]

theorem quarantine_keeps (h : PageInv c s) (hi : HeapInv Λ s L) (lc : LogConfig)
    {p : Nat} {b : HuAllocInfo} (hb : s.mal.huActiveAllocs.lookup p = some b) :
    PageInv c (quarantine c lc ans b
      { s with mal := { s.mal with huActiveAllocs := s.mal.huActiveAllocs.erase p } }) := by
  have hvalues := values_perm_erase hb
  unfold quarantine
  -- the loop needs the ownership invariant to know that each region it frees is live
  refine (evictLoop_invariant c lc ans (P := fun s => HeapInv Λ s (L.drop p) ∧ PageInv c s)
    (fun info rest s hq hs =>
      ⟨hs.1.evictFront_keeps c lc ans hq, hs.2.evictFront_keeps ans hok hs.1 lc hq⟩)
    _ _ rfl ⟨?_, ?_⟩).2
  · exact hi.retire_to_queue hb rfl rfl rfl (by simp)
  · have hzones : (s.mal.zones c).Perm (activeZone c b ::
        ((values (s.mal.huActiveAllocs.erase p)).map (activeZone c) ++
          s.mal.huQuarantineAllocs.map queuedZone)) :=
      (hvalues.map _).append_right _
    refine h.lock_region hzones ?_ ?_ ?_ ?_
    · simp only [MallocState.zones, huMprotect_active, huMprotect_queue, List.map_append,
        List.map_cons, List.map_nil]
      rw [← List.append_assoc]
      exact List.perm_append_comm
    · simp only [MallocState.owned, huMprotect_active, huMprotect_queue]
      rw [← List.append_assoc]
      exact List.perm_append_comm.trans (hvalues.append_right _).symm
    · intro a
      exact huMprotect_prot c ans _ _ _ _ (hok _ _ _) a
    · simp

theorem huFree_keeps (h : PageInv c s) (hi : HeapInv Λ s L) (lc : LogConfig) (p : Nat)
    (hinit : s.mal.huMallocInited = true)
    (hp : p = 0 ∨ p ∈ L.ptrs ∨ p ∈ s.mal.huUserAddrs) : PageInv c (huFree c lc ans p s) := by
  rcases huFree_cases c lc ans p s hinit with ⟨-, heq⟩ | ⟨hne, haddr, heq⟩ | ⟨-, -, -, heq⟩ |
    ⟨-, -, b, hb, heq⟩
  · rw [heq]
    exact h
  · obtain ⟨n, hlive⟩ := hi.unfenced_live hne hp haddr
    rw [heq]
    exact h.libcFree_keeps hlive
  · rw [heq]
    exact h
  · rw [heq]
    cases c.huUseafterfree with
    | true => exact h.quarantine_keeps ans hok hi lc hb
    | false =>
      have hown := MallocState.active_owned hb
      have hne := hi.sysPtr_ne_zero hown
      have hfind : s.sys.arena.find b.sysPtr = some b.region :=
        s.sys.arena.find_eq_some (hi.owned_live b hown)
      have hvalues := values_perm_erase hb
      refine h.return_region (b := b) (z := activeZone c b) rfl rfl ?_ ?_ ?_ ?_
      · exact (hvalues.map _).append_right _
      · exact hvalues.append_right _
      · intro a
        simp only [Bool.false_eq_true, if_false, HuState.libcFree, SysHeap.libcFree_prot]
        exact huMprotect_prot c ans _ _ _ _ (hok _ _ _) a
      · simp only [Bool.false_eq_true, if_false, HuState.libcFree, SysHeap.libcFree_of_ne _ hne,
          huMprotect_arena, huMprotect_calls, hfind]

theorem huRealloc_keeps (h : PageInv c s) (hi : HeapInv (.shaped c) s L) (lc : LogConfig)
    (p n : Nat) (hinit : s.mal.huMallocInited = true) (hp : p = 0 ∨ p ∈ L.ptrs)
    (hfit : 0 < n → c.huMinsize ≤ n → c.Fits n) : PageInv c (huRealloc c lc ans p n s).1 := by
  have hmal := h.huMalloc_keeps ans hok hi n hfit
  rcases huRealloc_cases c lc ans p n s hinit with ⟨-, heq⟩ | ⟨hne, -, heq⟩ |
    ⟨hne, -, b, -, heq⟩ | ⟨hne, -, hb, heq⟩
  · rw [heq]
    exact hmal
  · rw [heq]
    exact h.huFree_keeps ans hok hi lc p hinit (.inr (.inl (hp.resolve_left hne)))
  · have hheap := hi.reallocCopied_keeps c ans b n fun hpos hmin => (hfit hpos hmin).takes hpos
    have hcopied : PageInv c (reallocCopied c ans b n s) :=
      hmal.congr (by simp) (by simp) (by simp) (by simp)
    rw [heq]
    exact hcopied.huFree_keeps ans hok hheap lc p (by simpa using hinit)
      (.inr (.inl (ClientHeap.mem_ptrs_receive (hp.resolve_left hne))))
  · obtain ⟨m, -, hlive⟩ := hi.passed_through (hp.resolve_left hne) hb
    rw [heq]
    exact h.libcRealloc_keeps hlive ans n

/-- **Every call of the fenced allocator keeps the picture.** -/
theorem huCall_keeps (h : PageInv c s) (hi : HeapInv (.shaped c) s L) (lc : LogConfig)
    (call : Call) (hinit : s.mal.huMallocInited = true) (hcall : call.Handled s L)
    (hfit : 0 < call.requested → c.huMinsize ≤ call.requested → c.Fits call.requested) :
    PageInv c (huCall c lc ans call s).1 := by
  cases call with
  | malloc size => exact h.huMalloc_keeps ans hok hi size hfit
  | free ptr => exact h.huFree_keeps ans hok hi lc ptr hinit hcall
  | calloc nmemb size => exact h.huCalloc_keeps ans hok hi nmemb size hinit hfit
  | realloc ptr size => exact h.huRealloc_keeps ans hok hi lc ptr size hinit hcall hfit

end Calls

end PageInv

/-! ## §4 Runs -/

/-- One call of the fenced allocator. -/
structure AllocInput where
  call : Call
  ans : SysAns

/-- The allocator after `hu_malloc_init`, with any log, and a program holding nothing. -/
def Session.allocInit (l : LogState) : Session := ⟨⟨SysHeap.init, huMallocInit mallocStart, l⟩, []⟩

/-- A call of the allocator. A fenced block that `hu_realloc` released because
it found no memory is not live any more. -/
def Session.allocNext (c : MallocConfig) (lc : LogConfig) (σ : Session) (i : AllocInput) :
    Session :=
  let r := huCall c lc i.ans i.call σ.tool
  ⟨r.1, i.call.after (σ.tool.keeps i.call) r.2 σ.client⟩

/-- The calls of the runs considered: null or live pointers, and for `hu_free`
any address that was ever a fenced block; `mprotect` succeeds and fenced sizes
do not wrap. -/
structure Session.Handles (c : MallocConfig) (σ : Session) (i : AllocInput) : Prop where
  handled : i.call.Handled σ.tool σ.client
  fits : 0 < i.call.requested → c.huMinsize ≤ i.call.requested → c.Fits i.call.requested
  mprotectOk : ∀ addr len prot, i.ans.mprotectOk addr len prot = true

/-- The invariant of such a run. -/
structure AllocInv (c : MallocConfig) (σ : Session) : Prop where
  inited : σ.tool.mal.huMallocInited = true
  heap : HeapInv (.shaped c) σ.tool σ.client
  pages : PageInv c σ.tool

namespace AllocInv

variable {c : MallocConfig} {lc : LogConfig} {σ : Session} {i : AllocInput}

theorem init (l : LogState) : AllocInv c (.allocInit l) := by
  refine ⟨rfl, HeapInv.of_empty rfl rfl, ?_, ?_, ?_⟩
  · exact Painted.empty _
  · exact List.Perm.refl []
  · intro call hcall
    exact absurd hcall (List.not_mem_nil)

theorem next (h : AllocInv c σ) (hi : σ.Handles c i) : AllocInv c (σ.allocNext c lc i) where
  inited := by
    rw [Session.allocNext, huCall_inited, h.inited]
  heap := h.heap.huCall_keeps c lc i.ans i.call h.inited hi.handled
    (fun hpos hmin => (hi.fits hpos hmin).takes hpos)
  pages := h.pages.huCall_keeps i.ans hi.mprotectOk h.heap lc i.call h.inited hi.handled hi.fits

end AllocInv

end Heapusage
