/-
Heapusage.Malloc.HuMallocTheorems — what one call of the fenced allocator can
do, and the geometry of a fenced block.

§1 Geometry — with sizes that do not wrap, the 64-bit computation of
             `hu_malloc` is the exact one (`allocInfoAt_shaped`), and the
             block lies inside its region, right in front of the fence page.
§2 Frames  — what `hu_mprotect` and the eviction of a block leave alone.
§3 Cases   — `huMalloc_cases`, `huFree_cases`, `huRealloc_cases`: every way a
             call can go, with the state it ends in; `evictLoop_invariant`
             is the rule for the eviction loop.
§4 The log — the allocator only takes records out of `freed_allocations`.
§5 Memory  — no call changes a byte of a live region it was not asked about.
-/
import Heapusage.Log.HuLogTheorems
import Heapusage.Malloc.HuMalloc
import Heapusage.System.SysHeapTheorems

namespace Heapusage

open Arenas Tables Words

/-! ## §1 Geometry -/

/-- The bytes of the fence page. -/
def MallocConfig.fence (c : MallocConfig) : Nat := if c.huOverflow then c.huPageSize else 0

/-- `hu_calc_sys_size (hu_calc_user_size n)` in exact arithmetic. -/
def MallocConfig.exactSysSize (c : MallocConfig) (n : Nat) : Nat :=
  ceilTo (ceilTo n huSizeMultiple) c.huPageSize + c.fence

/-- The size computation for `n` bytes does not wrap. -/
def MallocConfig.Fits (c : MallocConfig) (n : Nat) : Prop := c.exactSysSize n < 2 ^ 64

instance (c : MallocConfig) (n : Nat) : Decidable (c.Fits n) :=
  inferInstanceAs (Decidable (_ < _))

theorem huRoundUp_eq {n m : Nat} (h : ceilTo n m < 2 ^ 64) : huRoundUp n m = ceilTo n m := by
  unfold huRoundUp
  unfold ceilTo at h ⊢
  by_cases hm : m = 0
  · rw [if_pos hm, if_pos hm]
  · rw [if_neg hm] at h ⊢
    rw [if_neg hm]
    by_cases hr : n % m = 0
    · simp only [hr, if_true]
    · simp only [hr, if_false] at h ⊢
      exact sub_add_eq (by have := Nat.mod_le n m; omega) h

theorem MallocConfig.Fits.userSize {c : MallocConfig} {n : Nat} (h : c.Fits n) :
    huCalcUserSize n = ceilTo n huSizeMultiple := by
  have hle := le_ceilTo (ceilTo n huSizeMultiple) c.huPageSize
  have h' : ceilTo (ceilTo n huSizeMultiple) c.huPageSize + c.fence < 2 ^ 64 := h
  exact huRoundUp_eq (by omega)

theorem MallocConfig.Fits.sysSize {c : MallocConfig} {n : Nat} (h : c.Fits n) :
    huCalcSysSize c (huCalcUserSize n) = c.exactSysSize n := by
  have h' : ceilTo (ceilTo n huSizeMultiple) c.huPageSize + c.fence < 2 ^ 64 := h
  rw [h.userSize, huCalcSysSize, huRoundUp_eq (by omega)]
  exact add_eq h'

/-- The region of a fenced block. -/
def HuAllocInfo.region (b : HuAllocInfo) : Region := ⟨b.sysPtr, b.sysSize, .memalign⟩

theorem HuAllocInfo.region_holds_of_lt (b : HuAllocInfo) {a : Nat} (hlo : b.sysPtr ≤ a)
    (hhi : a < b.sysPtr + b.sysSize) : b.region.Holds a :=
  ⟨hlo, hhi.trans_le b.region.base_add_size_le⟩

/-- The layout of a fenced block: the rounded size ends where the fence page
starts, and the fence page is the last page of the region. -/
structure HuAllocInfo.Shaped (c : MallocConfig) (b : HuAllocInfo) : Prop where
  userSize_pos : 0 < b.userSize
  sysPtr_aligned : b.sysPtr % c.huPageSize = 0
  sysSize_eq : b.sysSize = c.exactSysSize b.userSize
  userPtr_fenced : c.huOverflow = true →
    b.userPtr + ceilTo b.userSize huSizeMultiple + c.huPageSize = b.sysPtr + b.sysSize
  userPtr_plain : c.huOverflow = false → b.userPtr = b.sysPtr

namespace HuAllocInfo.Shaped

variable {c : MallocConfig} {b : HuAllocInfo}

theorem sysPtr_le (h : b.Shaped c) : b.sysPtr ≤ b.userPtr := by
  have hsize := h.sysSize_eq
  have hle := le_ceilTo (ceilTo b.userSize huSizeMultiple) c.huPageSize
  unfold MallocConfig.exactSysSize MallocConfig.fence at hsize
  cases ho : c.huOverflow with
  | false => exact (h.userPtr_plain ho).ge
  | true =>
    have hu := h.userPtr_fenced ho
    rw [ho, if_pos rfl] at hsize
    omega

theorem rounded_le (h : b.Shaped c) :
    b.userPtr + ceilTo b.userSize huSizeMultiple + c.fence ≤ b.sysPtr + b.sysSize := by
  have hsize := h.sysSize_eq
  have hle := le_ceilTo (ceilTo b.userSize huSizeMultiple) c.huPageSize
  unfold MallocConfig.exactSysSize at hsize
  unfold MallocConfig.fence at *
  cases ho : c.huOverflow with
  | false =>
    have hu := h.userPtr_plain ho
    rw [ho] at hsize
    simp only [Bool.false_eq_true, if_false] at hsize ⊢
    omega
  | true =>
    have hu := h.userPtr_fenced ho
    rw [if_pos rfl]
    omega

theorem user_le (h : b.Shaped c) :
    b.userPtr + b.userSize + c.fence ≤ b.sysPtr + b.sysSize := by
  have h1 := h.rounded_le
  have h2 := le_ceilTo b.userSize huSizeMultiple
  omega

/-- Every requested byte is in the region. -/
theorem region_holds (h : b.Shaped c) {i : Nat} (hi : i < b.userSize) :
    b.region.Holds (b.userPtr + i) := by
  have h1 := h.sysPtr_le
  have h2 := h.user_le
  exact b.region_holds_of_lt (by omega) (by omega)

theorem region_holds_userPtr (h : b.Shaped c) : b.region.Holds b.userPtr := by
  simpa using h.region_holds h.userSize_pos

end HuAllocInfo.Shaped

/-- The offset of the user pointer in its region, as the 64-bit code computes it. -/
def MallocConfig.userOffset (c : MallocConfig) (n : Nat) : Nat :=
  if c.huOverflow then
    sub 64 (sub 64 (huCalcSysSize c (huCalcUserSize n)) c.huPageSize) (huCalcUserSize n)
  else 0

/-- The user pointer of an `n`-byte block lies in the region allocated for it.
Sizes that do not wrap have this (`Fits.placed`); of those that do, not all. -/
def MallocConfig.Placed (c : MallocConfig) (n : Nat) : Prop :=
  c.userOffset n < max (huCalcSysSize c (huCalcUserSize n)) 1

instance (c : MallocConfig) (n : Nat) : Decidable (c.Placed n) :=
  inferInstanceAs (Decidable (_ < _))

@[simp] theorem allocInfoAt_sysPtr (c : MallocConfig) (n p : Nat) :
    (allocInfoAt c n p).sysPtr = p := rfl

@[simp] theorem allocInfoAt_userSize (c : MallocConfig) (n p : Nat) :
    (allocInfoAt c n p).userSize = n := rfl

@[simp] theorem allocInfoAt_sysSize (c : MallocConfig) (n p : Nat) :
    (allocInfoAt c n p).sysSize = huCalcSysSize c (huCalcUserSize n) := rfl

/-- The computation of `hu_malloc` gives a well-laid-out block. -/
theorem allocInfoAt_shaped {c : MallocConfig} {n sysPtr : Nat} (hn : 0 < n) (hfit : c.Fits n)
    (halign : sysPtr % c.huPageSize = 0) (hpos : 0 < sysPtr)
    (hin : sysPtr + c.exactSysSize n ≤ 2 ^ 64) :
    (allocInfoAt c n sysPtr).Shaped c := by
  have hpage : 0 < c.huPageSize := by
    rcases Nat.eq_zero_or_pos c.huPageSize with hz | hz
    · rw [hz, Nat.mod_zero] at halign
      omega
    · exact hz
  have hsys := hfit.sysSize
  have hlt : c.exactSysSize n < 2 ^ 64 := hfit
  have hround := le_ceilTo n huSizeMultiple
  have hle := le_ceilTo (ceilTo n huSizeMultiple) c.huPageSize
  refine ⟨hn, halign, hsys, ?_, ?_⟩
  · intro ho
    have hexact : c.exactSysSize n =
        ceilTo (ceilTo n huSizeMultiple) c.huPageSize + c.huPageSize := by
      simp [MallocConfig.exactSysSize, MallocConfig.fence, ho]
    have hfence : sub 64 (add 64 sysPtr (c.exactSysSize n)) c.huPageSize =
        sysPtr + c.exactSysSize n - c.huPageSize :=
      sub_add_eq (by omega) (by omega)
    have hne : sysPtr + c.exactSysSize n - c.huPageSize ≠ 0 := by omega
    have huser : (allocInfoAt c n sysPtr).userPtr =
        sysPtr + c.exactSysSize n - c.huPageSize - ceilTo n huSizeMultiple := by
      simp only [allocInfoAt, ho, if_true, hsys, hfence, true_and, if_pos hne]
      rw [hfit.userSize]
      exact sub_eq (by omega) (by omega)
    rw [huser]
    simp only [allocInfoAt_sysPtr, allocInfoAt_userSize, allocInfoAt_sysSize, hsys]
    omega
  · intro ho
    simp [allocInfoAt, ho]

/-- So does any placement in the address space. -/
theorem allocInfoAt_shaped_of_stop {c : MallocConfig} {n sysPtr : Nat} (hn : 0 < n)
    (hfit : c.Fits n) (halign : sysPtr % c.huPageSize = 0) (hpos : 0 < sysPtr)
    (hstop : (allocInfoAt c n sysPtr).region.stop ≤ 2 ^ 64) :
    (allocInfoAt c n sysPtr).Shaped c := by
  have hle := (allocInfoAt c n sysPtr).region.base_add_size_le
  have hsize : (allocInfoAt c n sysPtr).region.size = c.exactSysSize n := hfit.sysSize
  have hbase : (allocInfoAt c n sysPtr).region.base = sysPtr := rfl
  exact allocInfoAt_shaped hn hfit halign hpos (by omega)

theorem MallocConfig.Fits.placed {c : MallocConfig} {n : Nat} (h : c.Fits n) : c.Placed n := by
  have hlt : ceilTo (ceilTo n huSizeMultiple) c.huPageSize + c.fence < 2 ^ 64 := h
  have hle := le_ceilTo (ceilTo n huSizeMultiple) c.huPageSize
  have hexact : c.exactSysSize n =
      ceilTo (ceilTo n huSizeMultiple) c.huPageSize + c.fence := rfl
  unfold MallocConfig.Placed MallocConfig.userOffset
  rw [h.sysSize, h.userSize, hexact]
  cases ho : c.huOverflow with
  | false =>
    simp only [Bool.false_eq_true, if_false]
    omega
  | true =>
    have hf : c.fence = c.huPageSize := by rw [MallocConfig.fence, ho, if_pos rfl]
    rw [hf] at hlt
    have hpost : sub 64 (ceilTo (ceilTo n huSizeMultiple) c.huPageSize + c.huPageSize)
        c.huPageSize = ceilTo (ceilTo n huSizeMultiple) c.huPageSize := by
      rw [sub_eq (Nat.le_add_left _ _) hlt, Nat.add_sub_cancel]
    rw [if_pos rfl, hf, hpost, sub_eq hle (by omega)]
    rcases Nat.eq_zero_or_pos c.huPageSize with hz | hz
    · simp [hz, ceilTo]
    · have hround := ceilTo_lt (ceilTo n huSizeMultiple) hz
      omega

/-- A placed block's user pointer is in its region. -/
theorem allocInfoAt_holds {c : MallocConfig} {n sysPtr : Nat} (hp : c.Placed n)
    (hin : (allocInfoAt c n sysPtr).region.stop ≤ 2 ^ 64) :
    (allocInfoAt c n sysPtr).region.Holds (allocInfoAt c n sysPtr).userPtr := by
  have hstop : (allocInfoAt c n sysPtr).region.stop =
      sysPtr + max (huCalcSysSize c (huCalcUserSize n)) 1 := rfl
  unfold MallocConfig.Placed MallocConfig.userOffset at hp
  rw [hstop] at hin
  rw [Block.Holds, hstop]
  cases ho : c.huOverflow with
  | false => simp [allocInfoAt, HuAllocInfo.region, ho]
  | true =>
    rw [ho, if_pos rfl] at hp
    simp only [allocInfoAt, HuAllocInfo.region, ho, if_true, true_and]
    split
    · rw [sub_sub_add (by omega)]
      omega
    · omega

/-! ## §2 Frames -/

section Frames

variable (c : MallocConfig) (lc : LogConfig) (ans : SysAns) (s : HuState)

section Mprotect

variable (addr len : Nat) (prot : Prot)

@[simp] theorem huMprotect_arena :
    (huMprotect c ans addr len prot s).sys.arena = s.sys.arena := by
  simp [huMprotect]

@[simp] theorem huMprotect_mem : (huMprotect c ans addr len prot s).sys.mem = s.sys.mem := by
  simp [huMprotect]

@[simp] theorem huMprotect_calls :
    (huMprotect c ans addr len prot s).sys.calls = s.sys.calls := by
  simp [huMprotect]

@[simp] theorem huMprotect_active :
    (huMprotect c ans addr len prot s).mal.huActiveAllocs = s.mal.huActiveAllocs := rfl

@[simp] theorem huMprotect_queue :
    (huMprotect c ans addr len prot s).mal.huQuarantineAllocs = s.mal.huQuarantineAllocs := rfl

@[simp] theorem huMprotect_addrs :
    (huMprotect c ans addr len prot s).mal.huUserAddrs = s.mal.huUserAddrs := rfl

@[simp] theorem huMprotect_inited :
    (huMprotect c ans addr len prot s).mal.huMallocInited = s.mal.huMallocInited := rfl

@[simp] theorem huMprotect_queueSize :
    (huMprotect c ans addr len prot s).mal.huQuarantineSize = s.mal.huQuarantineSize := rfl

@[simp] theorem huMprotect_log : (huMprotect c ans addr len prot s).log = s.log := rfl

theorem huMprotect_prot (hok : ans.mprotectOk addr len prot = true) (a : Nat) :
    (huMprotect c ans addr len prot s).sys.prot a =
      if addr ≤ a ∧ a < addr + len then prot else s.sys.prot a :=
  SysHeap.mprotect_prot ans s.sys hok a

theorem huMprotect_prot_failed (hfailed : ans.mprotectOk addr len prot = false) :
    (huMprotect c ans addr len prot s).sys.prot = s.sys.prot :=
  SysHeap.mprotect_prot_failed ans s.sys hfailed

end Mprotect

variable (info : HuAllocInfo)

@[simp] theorem evictFront_active :
    (evictFront c lc ans info s).mal.huActiveAllocs = s.mal.huActiveAllocs := rfl

@[simp] theorem evictFront_queue :
    (evictFront c lc ans info s).mal.huQuarantineAllocs = s.mal.huQuarantineAllocs.tail := rfl

@[simp] theorem evictFront_addrs :
    (evictFront c lc ans info s).mal.huUserAddrs = s.mal.huUserAddrs := rfl

@[simp] theorem evictFront_inited :
    (evictFront c lc ans info s).mal.huMallocInited = s.mal.huMallocInited := rfl

theorem evictFront_sys :
    (evictFront c lc ans info s).sys =
      (huMprotect c ans info.sysPtr info.sysSize .readWrite
        { s with mal := { s.mal with
          huQuarantineEvicted := true
          huQuarantineAllocs := s.mal.huQuarantineAllocs.tail } }).sys.libcFree info.sysPtr := rfl

theorem evictFront_log :
    (evictFront c lc ans info s).log = huLogRemoveFreedAllocation lc info.userPtr s.log := rfl

end Frames

/-! ## §3 Cases -/

/-- A request `hu_malloc` hands straight to the C library. -/
def PassThrough (c : MallocConfig) (s : HuState) (n : Nat) : Prop :=
  s.mal.huMallocInited = false ∨ n = 0 ∨ n < c.huMinsize

/-- The region of a fenced `n`-byte block handed out at `ans.ptr`. -/
def fencedRegion (c : MallocConfig) (ans : SysAns) (n : Nat) : Region :=
  ⟨ans.ptr, huCalcSysSize c (huCalcUserSize n), .memalign⟩

/-- The state after the `posix_memalign` of a fenced allocation. -/
def memaligned (c : MallocConfig) (ans : SysAns) (n : Nat) (s : HuState)
    (hr : s.sys.arena.Admits (fencedRegion c ans n)) : HuState :=
  { s with sys := { s.sys.granted (fencedRegion c ans n) ans.fill hr with
      calls := .memalign (fencedRegion c ans n) :: s.sys.calls } }

/-- The state of a fenced allocation before its details are stored. -/
def fencedAt (c : MallocConfig) (ans : SysAns) (n : Nat) (s : HuState)
    (hr : s.sys.arena.Admits (fencedRegion c ans n)) : HuState :=
  if c.huOverflow then
    huMprotect c ans
      (sub 64 (add 64 ans.ptr (huCalcSysSize c (huCalcUserSize n))) c.huPageSize)
      c.huPageSize .none (memaligned c ans n s hr)
  else memaligned c ans n s hr

section FencedAt

variable (c : MallocConfig) (ans : SysAns) (n : Nat) (s : HuState)
  (hr : s.sys.arena.Admits (fencedRegion c ans n))

@[simp] theorem fencedAt_arena : (fencedAt c ans n s hr).sys.arena = s.sys.arena.add _ hr := by
  unfold fencedAt
  split
  · rw [huMprotect_arena]
    rfl
  · rfl

@[simp] theorem fencedAt_active :
    (fencedAt c ans n s hr).mal.huActiveAllocs = s.mal.huActiveAllocs := by
  unfold fencedAt
  split <;> rfl

@[simp] theorem fencedAt_queue :
    (fencedAt c ans n s hr).mal.huQuarantineAllocs = s.mal.huQuarantineAllocs := by
  unfold fencedAt
  split <;> rfl

@[simp] theorem fencedAt_addrs :
    (fencedAt c ans n s hr).mal.huUserAddrs = s.mal.huUserAddrs := by
  unfold fencedAt
  split <;> rfl

@[simp] theorem fencedAt_inited :
    (fencedAt c ans n s hr).mal.huMallocInited = s.mal.huMallocInited := by
  unfold fencedAt
  split <;> rfl

@[simp] theorem fencedAt_queueSize :
    (fencedAt c ans n s hr).mal.huQuarantineSize = s.mal.huQuarantineSize := by
  unfold fencedAt
  split <;> rfl

@[simp] theorem fencedAt_log : (fencedAt c ans n s hr).log = s.log := by
  unfold fencedAt
  split <;> rfl

theorem fencedAt_mem : (fencedAt c ans n s hr).sys.mem = (s.sys.granted _ ans.fill hr).mem := by
  unfold fencedAt
  split
  · rw [huMprotect_mem]
    rfl
  · rfl

/-- The fence is the last page of the new region, if it can be protected. -/
theorem fencedAt_prot_page (hfit : c.Fits n) (halign : ans.ptr % c.huPageSize = 0) (a : Nat) :
    (fencedAt c ans n s hr).sys.prot a =
      if c.huOverflow = true ∧
          ans.mprotectOk (ans.ptr + c.exactSysSize n - c.huPageSize) c.huPageSize .none = true ∧
          ans.ptr + c.exactSysSize n - c.huPageSize ≤ a ∧ a < ans.ptr + c.exactSysSize n
      then .none else s.sys.prot a := by
  have hsize : (fencedRegion c ans n).size = c.exactSysSize n := hfit.sysSize
  have hstop := hr.2.1
  have hend := (fencedRegion c ans n).base_add_size_le
  have hbase : (fencedRegion c ans n).base = ans.ptr := rfl
  have hpos := hr.1
  have hlt : c.exactSysSize n < 2 ^ 64 := hfit
  have hpage : 0 < c.huPageSize := by
    rcases Nat.eq_zero_or_pos c.huPageSize with hz | hz
    · rw [hz, Nat.mod_zero] at halign
      omega
    · exact hz
  have hmem : (memaligned c ans n s hr).sys.prot = s.sys.prot := rfl
  unfold fencedAt
  cases ho : c.huOverflow with
  | false => simp [hmem]
  | true =>
    have hexact : c.exactSysSize n =
        ceilTo (ceilTo n huSizeMultiple) c.huPageSize + c.huPageSize := by
      simp [MallocConfig.exactSysSize, MallocConfig.fence, ho]
    have haddr : sub 64 (add 64 ans.ptr (huCalcSysSize c (huCalcUserSize n))) c.huPageSize =
        ans.ptr + c.exactSysSize n - c.huPageSize := by
      rw [hfit.sysSize]
      exact sub_add_eq (by omega) (by omega)
    have hlast : ans.ptr + c.exactSysSize n - c.huPageSize + c.huPageSize =
        ans.ptr + c.exactSysSize n := by omega
    simp only [if_true, true_and]
    rw [haddr]
    cases hok : ans.mprotectOk (ans.ptr + c.exactSysSize n - c.huPageSize) c.huPageSize .none with
    | true => simp [huMprotect_prot c ans _ _ _ _ hok, hlast, hmem]
    | false =>
      have hfailed := huMprotect_prot_failed c ans (memaligned c ans n s hr) _ _ _ hok
      simp [hfailed, hmem]

/-- Where every `mprotect` succeeds it is protected. -/
theorem fencedAt_prot (hfit : c.Fits n) (halign : ans.ptr % c.huPageSize = 0)
    (hok : ∀ addr len prot, ans.mprotectOk addr len prot = true) (a : Nat) :
    (fencedAt c ans n s hr).sys.prot a =
      if ans.ptr + c.exactSysSize n - c.fence ≤ a ∧ a < ans.ptr + c.exactSysSize n ∧ 0 < c.fence
      then .none else s.sys.prot a := by
  rw [fencedAt_prot_page c ans n s hr hfit halign a]
  unfold MallocConfig.fence
  cases ho : c.huOverflow with
  | false => simp
  | true =>
    have hpage : 0 < c.huPageSize := by
      rcases Nat.eq_zero_or_pos c.huPageSize with hz | hz
      · rw [hz, Nat.mod_zero] at halign
        exact absurd halign hr.base_ne_zero
      · exact hz
    simp [hok, hpage]

@[simp] theorem fencedAt_calls :
    (fencedAt c ans n s hr).sys.calls = .memalign (fencedRegion c ans n) :: s.sys.calls := by
  unfold fencedAt
  split
  · rw [huMprotect_calls]
    rfl
  · rfl

end FencedAt

/-! Before `hu_malloc_init` every call goes to the C library. -/

section Uninited

variable (c : MallocConfig) (lc : LogConfig) (ans : SysAns) (s : HuState)
  (hinit : s.mal.huMallocInited = false)

include hinit

theorem huFree_uninited (p : Nat) : huFree c lc ans p s = s.libcFree p := by
  simp [huFree, hinit]

theorem huCalloc_uninited (count size : Nat) :
    huCalloc c ans count size s = s.libcCalloc ans count size := by
  simp [huCalloc, hinit]

theorem huRealloc_uninited (p n : Nat) :
    huRealloc c lc ans p n s = s.libcRealloc ans p n := by
  simp [huRealloc, hinit]

end Uninited

theorem huMalloc_cases (c : MallocConfig) (ans : SysAns) (n : Nat) (s : HuState) :
    (PassThrough c s n ∧ huMalloc c ans n s = s.libcMalloc ans n) ∨
    ((s.mal.huMallocInited = true ∧ 0 < n ∧ c.huMinsize ≤ n) ∧
      (huMalloc c ans n s = (s, 0) ∨
        (ans.ptr % c.huPageSize = 0 ∧
          ∃ hr, huMalloc c ans n s =
            (storeAllocInfo (allocInfoAt c n ans.ptr) (fencedAt c ans n s hr),
              (allocInfoAt c n ans.ptr).userPtr)))) := by
  unfold huMalloc PassThrough
  cases hi : s.mal.huMallocInited with
  | false => exact .inl ⟨.inl rfl, by simp⟩
  | true =>
    by_cases hz : n = 0
    · exact .inl ⟨.inr (.inl hz), by simp [hz]⟩
    by_cases hm : n < c.huMinsize
    · exact .inl ⟨.inr (.inr hm), by simp [hz, hm]⟩
    refine .inr ⟨⟨rfl, by omega, by omega⟩, ?_⟩
    rw [if_neg (by simp), if_neg hz, if_neg hm]
    rcases SysHeap.posixMemalign_cases ans s.sys c.huPageSize
      (huCalcSysSize c (huCalcUserSize n)) with hg | ⟨halign, hr, hg⟩
    · left
      simp only [hg, if_true]
    · have hne : ans.ptr ≠ 0 := hr.base_ne_zero
      right
      refine ⟨halign, hr, ?_⟩
      simp only [hg, hne, if_false]
      rfl

@[simp] theorem huMalloc_inited (c : MallocConfig) (ans : SysAns) (n : Nat) (s : HuState) :
    (huMalloc c ans n s).1.mal.huMallocInited = s.mal.huMallocInited := by
  rcases huMalloc_cases c ans n s with ⟨-, h⟩ | ⟨-, h | ⟨-, hr, h⟩⟩
  · rw [h]
    rfl
  · rw [h]
  · rw [h]
    simp [storeAllocInfo]

theorem huFree_cases (c : MallocConfig) (lc : LogConfig) (ans : SysAns) (p : Nat) (s : HuState)
    (hinit : s.mal.huMallocInited = true) :
    (p = 0 ∧ huFree c lc ans p s = s) ∨
    (p ≠ 0 ∧ p ∉ s.mal.huUserAddrs ∧ huFree c lc ans p s = s.libcFree p) ∨
    (p ≠ 0 ∧ p ∈ s.mal.huUserAddrs ∧ s.mal.huActiveAllocs.lookup p = none ∧
      huFree c lc ans p s = s) ∨
    (p ≠ 0 ∧ p ∈ s.mal.huUserAddrs ∧ ∃ info, s.mal.huActiveAllocs.lookup p = some info ∧
      huFree c lc ans p s =
        (let s := { s with mal := { s.mal with
            huActiveAllocs := s.mal.huActiveAllocs.erase p } }
         if c.huUseafterfree then quarantine c lc ans info s
         else (huMprotect c ans info.sysPtr info.sysSize .readWrite s).libcFree
            info.sysPtr)) := by
  by_cases hp : p = 0
  · exact .inl ⟨hp, by simp [huFree, hinit, hp]⟩
  by_cases hmem : p ∉ s.mal.huUserAddrs
  · exact .inr (.inl ⟨hp, hmem, by simp [huFree, hinit, hp, hmem]⟩)
  rw [not_not] at hmem
  cases hlook : s.mal.huActiveAllocs.lookup p with
  | none =>
    exact .inr (.inr (.inl ⟨hp, hmem, rfl, by
      simp [huFree, hinit, hp, hmem, huGetAllocinfo, hlook]⟩))
  | some info =>
    exact .inr (.inr (.inr ⟨hp, hmem, info, rfl, by
      simp [huFree, hinit, hp, hmem, huGetAllocinfo, hlook]⟩))

section HuMallocFrames

variable (c : MallocConfig) (ans : SysAns) (n : Nat) (s : HuState)

@[simp] theorem huMalloc_queue :
    (huMalloc c ans n s).1.mal.huQuarantineAllocs = s.mal.huQuarantineAllocs := by
  rcases huMalloc_cases c ans n s with ⟨-, h⟩ | ⟨-, h | ⟨-, hr, h⟩⟩
  · rw [h]
    rfl
  · rw [h]
  · rw [h]
    simp [storeAllocInfo]

@[simp] theorem huMalloc_queueSize :
    (huMalloc c ans n s).1.mal.huQuarantineSize = s.mal.huQuarantineSize := by
  rcases huMalloc_cases c ans n s with ⟨-, h⟩ | ⟨-, h | ⟨-, hr, h⟩⟩
  · rw [h]
    rfl
  · rw [h]
  · rw [h]
    simp [storeAllocInfo]

/-- No other block's entry changes. -/
theorem huMalloc_lookup_ne {p : Nat} (hp : p ≠ (huMalloc c ans n s).2) :
    (huMalloc c ans n s).1.mal.huActiveAllocs.lookup p = s.mal.huActiveAllocs.lookup p := by
  rcases huMalloc_cases c ans n s with ⟨-, h⟩ | ⟨-, h | ⟨-, hr, h⟩⟩
  · rw [h]
    rfl
  · rw [h]
  · rw [h] at hp ⊢
    simp only [storeAllocInfo, fencedAt_active]
    exact lookup_insertNew_ne hp

theorem huMalloc_addrs_ne {p : Nat} (hp : p ≠ (huMalloc c ans n s).2) :
    p ∈ (huMalloc c ans n s).1.mal.huUserAddrs ↔ p ∈ s.mal.huUserAddrs := by
  rcases huMalloc_cases c ans n s with ⟨-, h⟩ | ⟨-, h | ⟨-, hr, h⟩⟩
  · rw [h]
    rfl
  · rw [h]
  · rw [h] at hp ⊢
    simp only [storeAllocInfo, fencedAt_addrs, Finset.mem_insert]
    exact or_iff_right hp

/-- What `hu_malloc` returns, from the offer of the system alone. -/
theorem huMalloc_result :
    (huMalloc c ans n s).2 =
      if s.mal.huMallocInited = true ∧ n ≠ 0 ∧ c.huMinsize ≤ n then
        if ans.ptr % c.huPageSize = 0 ∧ s.sys.arena.Admits (fencedRegion c ans n) then
          (allocInfoAt c n ans.ptr).userPtr
        else 0
      else if s.sys.arena.Admits ⟨ans.ptr, n, .malloc⟩ then ans.ptr
      else 0 := by
  have hlibc : (s.libcMalloc ans n).2 =
      if s.sys.arena.Admits ⟨ans.ptr, n, .malloc⟩ then ans.ptr else 0 :=
    SysHeap.libcMalloc_result ans s.sys n
  unfold huMalloc
  cases hinit : s.mal.huMallocInited with
  | false => simpa using hlibc
  | true =>
    by_cases hz : n = 0
    · simpa [hz] using hlibc
    by_cases hmin : n < c.huMinsize
    · simpa [hz, hmin, Nat.not_le.mpr hmin] using hlibc
    have hfenced : true = true ∧ n ≠ 0 ∧ c.huMinsize ≤ n := ⟨rfl, hz, Nat.not_lt.mp hmin⟩
    rw [if_neg (by simp), if_neg hz, if_neg hmin, if_pos hfenced]
    have hsys := SysHeap.posixMemalign_result ans s.sys c.huPageSize
      (huCalcSysSize c (huCalcUserSize n))
    by_cases hgrant : ans.ptr % c.huPageSize = 0 ∧ s.sys.arena.Admits (fencedRegion c ans n)
    · have hsys : (s.sys.posixMemalign ans c.huPageSize
          (huCalcSysSize c (huCalcUserSize n))).2 = ans.ptr := hsys.trans (if_pos hgrant)
      have hne : ans.ptr ≠ 0 := hgrant.2.base_ne_zero
      simp only [hsys, hne, if_false, if_pos hgrant]
    · have hsys : (s.sys.posixMemalign ans c.huPageSize
          (huCalcSysSize c (huCalcUserSize n))).2 = 0 := hsys.trans (if_neg hgrant)
      simp only [hsys, if_true, if_neg hgrant]

end HuMallocFrames

/-- The state of `hu_realloc` between the copy and the release of the old block. -/
def reallocCopied (c : MallocConfig) (ans : SysAns) (info : HuAllocInfo) (n : Nat)
    (s : HuState) : HuState :=
  let r := huMalloc c ans n s
  if r.2 ≠ 0 then { r.1 with sys := r.1.sys.memcpy r.2 info.userPtr (min n info.userSize) }
  else r.1

@[simp] theorem reallocCopied_mal (c : MallocConfig) (ans : SysAns) (info : HuAllocInfo) (n : Nat)
    (s : HuState) : (reallocCopied c ans info n s).mal = (huMalloc c ans n s).1.mal := by
  unfold reallocCopied
  simp only
  split <;> rfl

@[simp] theorem reallocCopied_arena (c : MallocConfig) (ans : SysAns) (info : HuAllocInfo)
    (n : Nat) (s : HuState) :
    (reallocCopied c ans info n s).sys.arena = (huMalloc c ans n s).1.sys.arena := by
  unfold reallocCopied
  simp only
  split <;> rfl

@[simp] theorem reallocCopied_prot (c : MallocConfig) (ans : SysAns) (info : HuAllocInfo)
    (n : Nat) (s : HuState) :
    (reallocCopied c ans info n s).sys.prot = (huMalloc c ans n s).1.sys.prot := by
  unfold reallocCopied
  simp only
  split <;> rfl

@[simp] theorem reallocCopied_calls (c : MallocConfig) (ans : SysAns) (info : HuAllocInfo)
    (n : Nat) (s : HuState) :
    (reallocCopied c ans info n s).sys.calls = (huMalloc c ans n s).1.sys.calls := by
  unfold reallocCopied
  simp only
  split <;> rfl

/-- The state of `hu_calloc` once the block it got is zeroed. -/
def callocCleared (c : MallocConfig) (ans : SysAns) (n : Nat) (s : HuState) : HuState :=
  let r := huMalloc c ans n s
  if r.2 ≠ 0 then { r.1 with sys := r.1.sys.memset r.2 0 n } else r.1

section Cleared

variable (c : MallocConfig) (ans : SysAns) (n : Nat) (s : HuState)

@[simp] theorem callocCleared_mal : (callocCleared c ans n s).mal = (huMalloc c ans n s).1.mal := by
  unfold callocCleared
  simp only
  split <;> rfl

@[simp] theorem callocCleared_log : (callocCleared c ans n s).log = (huMalloc c ans n s).1.log := by
  unfold callocCleared
  simp only
  split <;> rfl

@[simp] theorem callocCleared_arena :
    (callocCleared c ans n s).sys.arena = (huMalloc c ans n s).1.sys.arena := by
  unfold callocCleared
  simp only
  split <;> rfl

@[simp] theorem callocCleared_prot :
    (callocCleared c ans n s).sys.prot = (huMalloc c ans n s).1.sys.prot := by
  unfold callocCleared
  simp only
  split <;> rfl

@[simp] theorem callocCleared_calls :
    (callocCleared c ans n s).sys.calls = (huMalloc c ans n s).1.sys.calls := by
  unfold callocCleared
  simp only
  split <;> rfl

theorem callocCleared_mem_zero (hq : (huMalloc c ans n s).2 ≠ 0) {j : Nat} (hj : j < n) :
    (callocCleared c ans n s).sys.mem ((huMalloc c ans n s).2 + j) = 0 := by
  simp only [callocCleared, if_pos hq]
  exact SysHeap.memset_mem_of_lt _ hj

theorem callocCleared_mem_of_out {a : Nat}
    (hout : (huMalloc c ans n s).2 ≠ 0 → ∀ j < n, a ≠ (huMalloc c ans n s).2 + j) :
    (callocCleared c ans n s).sys.mem a = (huMalloc c ans n s).1.sys.mem a := by
  by_cases hq : (huMalloc c ans n s).2 ≠ 0
  · simp only [callocCleared, if_pos hq]
    exact SysHeap.memset_mem_of_out _ (hout hq)
  · simp only [callocCleared, if_neg hq]

end Cleared

theorem huRealloc_cases (c : MallocConfig) (lc : LogConfig) (ans : SysAns) (p n : Nat)
    (s : HuState) (hinit : s.mal.huMallocInited = true) :
    (p = 0 ∧ huRealloc c lc ans p n s = huMalloc c ans n s) ∨
    (p ≠ 0 ∧ n = 0 ∧ huRealloc c lc ans p n s = (huFree c lc ans p s, 0)) ∨
    (p ≠ 0 ∧ n ≠ 0 ∧ ∃ info, s.mal.huActiveAllocs.lookup p = some info ∧
      huRealloc c lc ans p n s =
        (huFree c lc ans p (reallocCopied c ans info n s), (huMalloc c ans n s).2)) ∨
    (p ≠ 0 ∧ n ≠ 0 ∧ s.mal.huActiveAllocs.lookup p = none ∧
      huRealloc c lc ans p n s = s.libcRealloc ans p n) := by
  by_cases hp : p = 0
  · exact .inl ⟨hp, by simp [huRealloc, hinit, hp]⟩
  by_cases hn : n = 0
  · exact .inr (.inl ⟨hp, hn, by simp [huRealloc, hinit, hp, hn]⟩)
  cases hlook : s.mal.huActiveAllocs.lookup p with
  | some info =>
    refine .inr (.inr (.inl ⟨hp, hn, info, rfl, ?_⟩))
    simp only [huRealloc, hinit, Bool.not_true, Bool.false_eq_true, if_false, hp, hn,
      huGetAllocinfo, hlook, reallocCopied]
  | none =>
    refine .inr (.inr (.inr ⟨hp, hn, rfl, ?_⟩))
    simp [huRealloc, hinit, hp, hn, huGetAllocinfo, hlook]

/-- `hu_calloc` of a positive size: fail, or `hu_malloc` and zero the block. -/
theorem huCalloc_cases (c : MallocConfig) (ans : SysAns) (count size : Nat) (s : HuState)
    (hinit : s.mal.huMallocInited = true) :
    (count * size = 0 ∧ huCalloc c ans count size s = s.libcCalloc ans count size) ∨
    (2 ^ 64 ≤ count * size ∧ huCalloc c ans count size s = (s, 0)) ∨
    (count * size ≠ 0 ∧ count * size < 2 ^ 64 ∧
      huCalloc c ans count size s =
        (callocCleared c ans (count * size) s, (huMalloc c ans (count * size) s).2)) := by
  by_cases hz : count = 0 ∨ size = 0
  · refine .inl ⟨Nat.mul_eq_zero.mpr hz, ?_⟩
    simp [huCalloc, hinit, hz]
  · have hne : count * size ≠ 0 := fun h => hz (Nat.mul_eq_zero.mp h)
    have hpos : 0 < count := Nat.pos_of_ne_zero (fun h => hz (.inl h))
    by_cases hfit : count * size < 2 ^ 64
    · have hdiv := mul_div_eq hpos hfit
      refine .inr (.inr ⟨hne, hfit, ?_⟩)
      rw [mul_eq hfit] at hdiv
      simp only [huCalloc, hinit, Bool.not_true, Bool.false_eq_true, if_false, hz, mul_eq hfit,
        hdiv, ne_eq, not_true_eq_false, callocCleared]
      split <;> rfl
    · have hdiv : mul 64 count size / count ≠ size := mul_div_ne (by omega)
      refine .inr (.inl ⟨Nat.not_lt.mp hfit, ?_⟩)
      simp only [huCalloc, hinit, Bool.not_true, Bool.false_eq_true, if_false, hz, hdiv, ne_eq,
        not_false_eq_true, if_true]

/-- Requests for no byte go to the C library, initialised or not. -/
theorem huMalloc_zero (c : MallocConfig) (ans : SysAns) (s : HuState) :
    huMalloc c ans 0 s = s.libcMalloc ans 0 := by
  unfold huMalloc
  split <;> rfl

theorem huCalloc_zero (c : MallocConfig) (ans : SysAns) {count size : Nat} (s : HuState)
    (hz : count * size = 0) : huCalloc c ans count size s = s.libcCalloc ans count size := by
  have hzero : count = 0 ∨ size = 0 := Nat.mul_eq_zero.mp hz
  unfold huCalloc
  rw [if_pos hzero, ite_self]

theorem huRealloc_zero (c : MallocConfig) (lc : LogConfig) (ans : SysAns) (s : HuState) :
    huRealloc c lc ans 0 0 s = s.libcMalloc ans 0 := by
  unfold huRealloc
  split
  · rfl
  · rw [if_pos rfl, huMalloc_zero]

/-- What `hu_calloc` of a positive size returns. -/
theorem huCalloc_result (c : MallocConfig) (ans : SysAns) (count size : Nat) (s : HuState)
    (hinit : s.mal.huMallocInited = true) (hne : count * size ≠ 0) :
    (huCalloc c ans count size s).2 =
      if count * size < 2 ^ 64 then (huMalloc c ans (count * size) s).2 else 0 := by
  rcases huCalloc_cases c ans count size s hinit with ⟨h, -⟩ | ⟨hwrap, h⟩ | ⟨-, hfit, h⟩
  · exact absurd h hne
  · rw [h, if_neg (Nat.not_lt.mpr hwrap)]
  · rw [h, if_pos hfit]

/-- **Rule for the eviction loop**: what one eviction preserves the loop
preserves. -/
theorem evictLoop_invariant (c : MallocConfig) (lc : LogConfig) (ans : SysAns)
    {P : HuState → Prop}
    (hstep : ∀ info rest s, s.mal.huQuarantineAllocs = info :: rest → P s →
      P (evictFront c lc ans info s)) :
    ∀ q s, s.mal.huQuarantineAllocs = q → P s → P (evictLoop c lc ans q s) := by
  intro q
  induction q with
  | nil => intro s _ hs; exact hs
  | cons info rest ih =>
    intro s hq hs
    unfold evictLoop
    split
    · exact ih _ (by rw [evictFront_queue, hq]; rfl) (hstep info rest s hq hs)
    · exact hs

theorem quarantine_inited (c : MallocConfig) (lc : LogConfig) (ans : SysAns) (info : HuAllocInfo)
    (s : HuState) :
    (quarantine c lc ans info s).mal.huMallocInited = s.mal.huMallocInited := by
  unfold quarantine
  exact evictLoop_invariant c lc ans
    (P := fun s' => s'.mal.huMallocInited = s.mal.huMallocInited)
    (fun info' rest s' _ h => by rw [evictFront_inited, h]) _ _ rfl rfl

theorem huFree_inited (c : MallocConfig) (lc : LogConfig) (ans : SysAns) (p : Nat) (s : HuState) :
    (huFree c lc ans p s).mal.huMallocInited = s.mal.huMallocInited := by
  cases hinit : s.mal.huMallocInited with
  | false =>
    rw [huFree_uninited c lc ans s hinit]
    exact hinit
  | true =>
    rcases huFree_cases c lc ans p s hinit with ⟨-, h⟩ | ⟨-, -, h⟩ | ⟨-, -, -, h⟩ |
      ⟨-, -, info, -, h⟩
    · rw [h, hinit]
    · rw [h]
      exact hinit
    · rw [h, hinit]
    · rw [h]
      simp only
      split
      · rw [quarantine_inited, hinit]
      · exact hinit

theorem huRealloc_inited (c : MallocConfig) (lc : LogConfig) (ans : SysAns) (p n : Nat)
    (s : HuState) :
    (huRealloc c lc ans p n s).1.mal.huMallocInited = s.mal.huMallocInited := by
  cases hinit : s.mal.huMallocInited with
  | false =>
    rw [huRealloc_uninited c lc ans s hinit]
    exact hinit
  | true =>
    rcases huRealloc_cases c lc ans p n s hinit with ⟨-, h⟩ | ⟨-, -, h⟩ | ⟨-, -, b, -, h⟩ |
      ⟨-, -, -, h⟩
    · rw [h, huMalloc_inited, hinit]
    · rw [h, huFree_inited, hinit]
    · rw [h, huFree_inited, reallocCopied_mal, huMalloc_inited, hinit]
    · rw [h]
      exact hinit

theorem huCalloc_inited (c : MallocConfig) (ans : SysAns) (count size : Nat) (s : HuState) :
    (huCalloc c ans count size s).1.mal.huMallocInited = s.mal.huMallocInited := by
  cases hinit : s.mal.huMallocInited with
  | false =>
    rw [huCalloc_uninited c ans s hinit]
    exact hinit
  | true =>
    rcases huCalloc_cases c ans count size s hinit with ⟨-, h⟩ | ⟨-, h⟩ | ⟨-, -, h⟩
    · rw [h]
      exact hinit
    · rw [h, hinit]
    · rw [h, callocCleared_mal, huMalloc_inited, hinit]

/-! ## §4 The log -/

theorem huMalloc_log (c : MallocConfig) (ans : SysAns) (n : Nat) (s : HuState) :
    (huMalloc c ans n s).1.log = s.log := by
  rcases huMalloc_cases c ans n s with ⟨-, h⟩ | ⟨-, h | ⟨-, hr, h⟩⟩
  · rw [h]
    rfl
  · rw [h]
  · rw [h]
    exact fencedAt_log c ans n s hr

theorem reallocCopied_log (c : MallocConfig) (ans : SysAns) (info : HuAllocInfo) (n : Nat)
    (s : HuState) : (reallocCopied c ans info n s).log = s.log := by
  rw [← huMalloc_log c ans n s]
  unfold reallocCopied
  simp only
  split <;> rfl

theorem quarantine_log (c : MallocConfig) (lc : LogConfig) (ans : SysAns) (info : HuAllocInfo)
    (s : HuState) : s.log.Evicted (quarantine c lc ans info s).log := by
  unfold quarantine
  refine evictLoop_invariant c lc ans (P := fun s' => s.log.Evicted s'.log) ?_ _ _ rfl
    (LogState.Evicted.refl _)
  intro info' rest s' _ h
  rw [evictFront_log]
  exact h.trans (LogState.Evicted.remove lc _ _)

theorem huFree_log (c : MallocConfig) (lc : LogConfig) (ans : SysAns) (p : Nat) (s : HuState) :
    s.log.Evicted (huFree c lc ans p s).log := by
  cases hinit : s.mal.huMallocInited with
  | false =>
    rw [huFree_uninited c lc ans s hinit]
    exact LogState.Evicted.refl _
  | true =>
    rcases huFree_cases c lc ans p s hinit with ⟨-, h⟩ | ⟨-, -, h⟩ | ⟨-, -, -, h⟩ |
      ⟨-, -, info, -, h⟩
    · rw [h]
      exact LogState.Evicted.refl _
    · rw [h]
      exact LogState.Evicted.refl _
    · rw [h]
      exact LogState.Evicted.refl _
    · rw [h]
      simp only
      split
      · exact quarantine_log c lc ans info { s with mal := { s.mal with
          huActiveAllocs := s.mal.huActiveAllocs.erase p } }
      · exact LogState.Evicted.refl _

theorem huCalloc_log (c : MallocConfig) (ans : SysAns) (count size : Nat) (s : HuState) :
    (huCalloc c ans count size s).1.log = s.log := by
  cases hinit : s.mal.huMallocInited with
  | false =>
    rw [huCalloc_uninited c ans s hinit]
    rfl
  | true =>
    rcases huCalloc_cases c ans count size s hinit with ⟨-, h⟩ | ⟨-, h⟩ | ⟨-, -, h⟩
    · rw [h]
      rfl
    · rw [h]
    · rw [h, callocCleared_log, huMalloc_log]

theorem huRealloc_log (c : MallocConfig) (lc : LogConfig) (ans : SysAns) (p n : Nat)
    (s : HuState) : s.log.Evicted (huRealloc c lc ans p n s).1.log := by
  cases hinit : s.mal.huMallocInited with
  | false =>
    rw [huRealloc_uninited c lc ans s hinit]
    exact LogState.Evicted.refl _
  | true =>
    rcases huRealloc_cases c lc ans p n s hinit with ⟨-, h⟩ | ⟨-, -, h⟩ | ⟨-, -, b, -, h⟩ |
      ⟨-, -, -, h⟩
    · rw [h, huMalloc_log]
      exact LogState.Evicted.refl _
    · rw [h]
      exact huFree_log c lc ans p s
    · rw [h, ← reallocCopied_log c ans b n s]
      exact huFree_log c lc ans p _
    · rw [h]
      exact LogState.Evicted.refl _

/-- The blocks the eviction loop takes from a queue that holds `size` bytes. -/
def evictedFrom (c : MallocConfig) : List HuAllocInfo → Nat → List HuAllocInfo
  | [], _ => []
  | info :: rest, size =>
      if size > c.huQuarantineMaxSize then
        info :: evictedFrom c rest (sub 64 size info.sysSize)
      else []

/-- Drop the freed records of a list of blocks. -/
def forgetFreed (lc : LogConfig) (blocks : List HuAllocInfo) (l : LogState) : LogState :=
  blocks.foldl (fun l info => huLogRemoveFreedAllocation lc info.userPtr l) l

/-- The eviction loop drops the records of the blocks it takes. -/
theorem evictLoop_log (c : MallocConfig) (lc : LogConfig) (ans : SysAns) :
    ∀ (q : List HuAllocInfo) (s : HuState), (evictLoop c lc ans q s).log =
      forgetFreed lc (evictedFrom c q s.mal.huQuarantineSize) s.log := by
  intro q
  induction q with
  | nil => intro s; rfl
  | cons info rest ih =>
    intro s
    unfold evictLoop evictedFrom
    split
    · rw [ih, evictFront_log]
      rfl
    · rfl

/-- The blocks that giving up the block at `p` evicts. -/
def MallocState.evictions (c : MallocConfig) (p : Nat) (m : MallocState) : List HuAllocInfo :=
  if c.huUseafterfree ∧ p ≠ 0 ∧ p ∈ m.huUserAddrs then
    match m.huActiveAllocs.lookup p with
    | some info =>
        evictedFrom c (m.huQuarantineAllocs ++ [info]) (add 64 m.huQuarantineSize info.sysSize)
    | none => []
  else []

theorem huFree_log_eq (c : MallocConfig) (lc : LogConfig) (ans : SysAns) (p : Nat) (s : HuState)
    (hinit : s.mal.huMallocInited = true) :
    (huFree c lc ans p s).log = forgetFreed lc (s.mal.evictions c p) s.log := by
  unfold MallocState.evictions
  rcases huFree_cases c lc ans p s hinit with ⟨hp, h⟩ | ⟨-, haddr, h⟩ | ⟨-, -, hb, h⟩ |
    ⟨hp, haddr, info, hb, h⟩
  · rw [h, if_neg (fun hc => hc.2.1 hp)]
    rfl
  · rw [h, if_neg (fun hc => haddr hc.2.2)]
    rfl
  · rw [h, hb]
    simp only [ite_self]
    rfl
  · rw [h, hb]
    cases hu : c.huUseafterfree with
    | true =>
      have hcond : True ∧ p ≠ 0 ∧ p ∈ s.mal.huUserAddrs := ⟨trivial, hp, haddr⟩
      simp only [if_true, quarantine, evictLoop_log, huMprotect_queue, huMprotect_log,
        huMprotect_queueSize, if_pos hcond]
    | false =>
      simp only [Bool.false_eq_true, false_and, if_false]
      rfl

theorem forgetFreed_evicted (lc : LogConfig) (blocks : List HuAllocInfo) :
    ∀ l : LogState, l.Evicted (forgetFreed lc blocks l) := by
  induction blocks with
  | nil => exact LogState.Evicted.refl
  | cons b rest ih =>
    intro l
    exact (LogState.Evicted.remove lc b.userPtr l).trans (ih _)

/-- Without the double-free tool the records of evicted blocks go; with it none does. -/
theorem forgetFreed_lookup (lc : LogConfig) (blocks : List HuAllocInfo) (k : Nat) :
    ∀ l : LogState, (forgetFreed lc blocks l).freedAllocations.lookup k =
      if lc.huLogFree = false ∧ k ∈ blocks.map HuAllocInfo.userPtr then none
      else l.freedAllocations.lookup k := by
  induction blocks with
  | nil => intro l; simp [forgetFreed]
  | cons b rest ih =>
    intro l
    have hcons : forgetFreed lc (b :: rest) l =
        forgetFreed lc rest (huLogRemoveFreedAllocation lc b.userPtr l) := rfl
    rw [hcons, ih]
    unfold huLogRemoveFreedAllocation
    cases lc.huLogFree with
    | true => simp
    | false =>
      simp only [true_and, List.map_cons, List.mem_cons, Bool.false_eq_true, if_false]
      by_cases hrest : k ∈ rest.map HuAllocInfo.userPtr
      · rw [if_pos hrest, if_pos (.inr hrest)]
      · rw [if_neg hrest]
        by_cases hk : k = b.userPtr
        · rw [if_pos (.inl hk), hk, AList.lookup_erase]
        · rw [if_neg (not_or.mpr ⟨hk, hrest⟩), AList.lookup_erase_ne hk]

/-! ## §5 Memory -/

/-- `hu_malloc` changes no byte of a live region. -/
theorem huMalloc_mem (c : MallocConfig) (ans : SysAns) (n : Nat) (s : HuState) {d : Region}
    (hd : d ∈ s.sys.arena.blocks) {a : Nat} (ha : d.Holds a) :
    (huMalloc c ans n s).1.sys.mem a = s.sys.mem a := by
  rcases huMalloc_cases c ans n s with ⟨-, h⟩ | ⟨-, h | ⟨-, hr, h⟩⟩
  · rw [h, HuState.libcMalloc]
    rcases SysHeap.libcMalloc_cases ans s.sys n with hm | ⟨hr, hm⟩
    · rw [hm]
    · rw [hm]
      exact SysHeap.granted_mem_of_held s.sys hr hd ha
  · rw [h]
  · rw [h]
    simp only [storeAllocInfo, fencedAt_mem]
    exact SysHeap.granted_mem_of_held s.sys hr hd ha

/-- Every byte of a new block is in a region that was free. -/
theorem huMalloc_range (c : MallocConfig) (ans : SysAns) (n : Nat) (s : HuState)
    (hfit : 0 < n → c.huMinsize ≤ n → c.Fits n) (hq : (huMalloc c ans n s).2 ≠ 0) :
    ∃ r, s.sys.arena.Admits r ∧ ∀ i < n, r.Holds ((huMalloc c ans n s).2 + i) := by
  rcases huMalloc_cases c ans n s with ⟨-, h⟩ | ⟨⟨-, hpos, hmin⟩, h | ⟨halign, hr, h⟩⟩
  · rw [h, HuState.libcMalloc] at hq ⊢
    rcases SysHeap.libcMalloc_cases ans s.sys n with hm | ⟨hr, hm⟩
    · rw [hm] at hq
      exact absurd rfl hq
    · rw [hm]
      exact ⟨_, hr, fun i hi => Block.holds_of_lt_size (⟨ans.ptr, n, .malloc⟩ : Region) hi⟩
  · rw [h] at hq
    exact absurd rfl hq
  · rw [h]
    have hshaped : (allocInfoAt c n ans.ptr).Shaped c :=
      allocInfoAt_shaped_of_stop hpos (hfit hpos hmin) halign hr.1 hr.2.1
    exact ⟨_, hr, fun i hi => hshaped.region_holds hi⟩

theorem evictFront_mem (c : MallocConfig) (lc : LogConfig) (ans : SysAns) (info : HuAllocInfo)
    (s : HuState) : (evictFront c lc ans info s).sys.mem = s.sys.mem := by
  rw [evictFront_sys, SysHeap.libcFree_mem, huMprotect_mem]

/-- `hu_free` changes no byte at all. -/
theorem huFree_mem (c : MallocConfig) (lc : LogConfig) (ans : SysAns) (p : Nat) (s : HuState) :
    (huFree c lc ans p s).sys.mem = s.sys.mem := by
  cases hinit : s.mal.huMallocInited with
  | false =>
    rw [huFree_uninited c lc ans s hinit, HuState.libcFree, SysHeap.libcFree_mem]
  | true =>
    rcases huFree_cases c lc ans p s hinit with ⟨-, h⟩ | ⟨-, -, h⟩ | ⟨-, -, -, h⟩ |
      ⟨-, -, info, -, h⟩
    · rw [h]
    · rw [h, HuState.libcFree, SysHeap.libcFree_mem]
    · rw [h]
    · rw [h]
      simp only
      split
      · unfold quarantine
        refine evictLoop_invariant c lc ans (P := fun s' => s'.sys.mem = s.sys.mem) ?_ _ _ rfl ?_
        · intro info' rest s' _ hs'
          rw [evictFront_mem, hs']
        · simp
      · simp [HuState.libcFree]

end Heapusage
