/-
Heapusage.Malloc.Sizes — the sizes and addresses of `hu_malloc` and
`hu_calloc` for every 64-bit request.

§1 Wrapping   — a computation that wraps asks the system for no more than the
                fence page (`sysSize_le_fence`), and still gives a pointer
                (`userPtr_ne_zero`).
§2 Deliveries — what a request may come back with (`Delivered`), and when it
                does (`delivered_fenced_iff`).
§3 Requests   — of every size (`requests_delivered_iff`); the largest one is
                answered with a block of no byte (`largest_request_undelivered`).
-/
import Heapusage.Malloc.HuMallocTheorems

namespace Heapusage

open Arenas Tables Words

/-! ## §1 Wrapping -/

section Wrapping

variable {c : MallocConfig} {n k : Nat}

/-- Rounding a word up is exact rounding, reduced once. -/
theorem huRoundUp_mod {n m : Nat} (hn : n < 2 ^ 64) : huRoundUp n m = ceilTo n m % 2 ^ 64 := by
  unfold huRoundUp ceilTo
  split
  · rw [Nat.mod_eq_of_lt hn]
  · simp only
    split
    · rw [Nat.mod_eq_of_lt hn]
    · exact sub_add_mod (Nat.le_add_right_of_le (Nat.mod_le n m))

theorem MallocConfig.fence_le (c : MallocConfig) : c.fence ≤ c.huPageSize := by
  unfold MallocConfig.fence
  split
  · exact Nat.le_refl _
  · exact Nat.zero_le _

/-- A page boundary after which the fence page does not fit is the last one. -/
theorem fence_wraps {r : Nat} (hr : c.huPageSize ∣ r) (hdvd : c.huPageSize ∣ 2 ^ 64)
    (hlt : r < 2 ^ 64) (hge : 2 ^ 64 ≤ r + c.fence) :
    c.huOverflow = true ∧ c.fence = c.huPageSize ∧ r + c.huPageSize = 2 ^ 64 := by
  have hstep := add_le_of_dvd hr hdvd hlt
  have hfence := c.fence_le
  have ho : c.huOverflow = true := by
    by_contra ho
    rw [MallocConfig.fence, if_neg ho] at hge
    omega
  exact ⟨ho, if_pos ho, by omega⟩

/-- The three ways a computation that wraps goes: the first rounding wraps to
nothing, or the second, or the addition of the fence page. -/
theorem wraps_cases (hpage : c.huPageSize = 2 ^ k) (hk : k ≤ 64) (hn : n < 2 ^ 64)
    (hwrap : ¬ c.Fits n) :
    (huCalcUserSize n = 0 ∧ huCalcSysSize c (huCalcUserSize n) = c.fence % 2 ^ 64) ∨
    (2 ^ 64 < huCalcUserSize n + c.huPageSize ∧ huCalcUserSize n < 2 ^ 64 ∧
      huCalcSysSize c (huCalcUserSize n) = c.fence % 2 ^ 64) ∨
    (c.huOverflow = true ∧ huCalcUserSize n + c.huPageSize ≤ 2 ^ 64 ∧
      2 ^ 64 < huCalcUserSize n + 2 * c.huPageSize ∧
      huCalcSysSize c (huCalcUserSize n) = 0) := by
  have hpos : 0 < c.huPageSize := hpage ▸ Nat.two_pow_pos k
  have hdvd : c.huPageSize ∣ 2 ^ 64 := hpage ▸ Nat.pow_dvd_pow 2 hk
  have hsize : huCalcSysSize c (huCalcUserSize n) =
      (huRoundUp (huCalcUserSize n) c.huPageSize + c.fence) % 2 ^ 64 := rfl
  have huser : huCalcUserSize n = ceilTo n huSizeMultiple % 2 ^ 64 := huRoundUp_mod hn
  have huser_le : ceilTo n huSizeMultiple ≤ 2 ^ 64 :=
    ceilTo_le (by decide) (by decide) hn.le
  rcases Nat.lt_or_eq_of_le huser_le with hlt | heq
  · rw [Nat.mod_eq_of_lt hlt] at huser
    have hround : huRoundUp (huCalcUserSize n) c.huPageSize =
        ceilTo (ceilTo n huSizeMultiple) c.huPageSize % 2 ^ 64 := by
      rw [huser, huRoundUp_mod hlt]
    have hround_le : ceilTo (ceilTo n huSizeMultiple) c.huPageSize ≤ 2 ^ 64 :=
      ceilTo_le hpos hdvd hlt.le
    have hround_lt := ceilTo_lt (ceilTo n huSizeMultiple) hpos
    have hge : 2 ^ 64 ≤ ceilTo (ceilTo n huSizeMultiple) c.huPageSize + c.fence :=
      Nat.not_lt.mp hwrap
    rcases Nat.lt_or_eq_of_le hround_le with hlt' | heq'
    · obtain ⟨ho, hf, hsum⟩ := fence_wraps (dvd_ceilTo _ _ hpos) hdvd hlt' hge
      have hle := le_ceilTo (ceilTo n huSizeMultiple) c.huPageSize
      refine .inr (.inr ⟨ho, by omega, by omega, ?_⟩)
      rw [hsize, hround, Nat.mod_eq_of_lt hlt', hf, hsum, Nat.mod_self]
    · refine .inr (.inl ⟨by omega, by omega, ?_⟩)
      rw [hsize, hround, heq', Nat.mod_self, Nat.zero_add]
  · have hzero : huCalcUserSize n = 0 := by rw [huser, heq, Nat.mod_self]
    refine .inl ⟨hzero, ?_⟩
    have hround : huRoundUp 0 c.huPageSize = 0 := by simp [huRoundUp]
    rw [hsize, hzero, hround, Nat.zero_add]

/-- A computation that wraps leaves room for the fence page at most. -/
theorem sysSize_le_fence (hpage : c.huPageSize = 2 ^ k) (hk : k ≤ 64) (hn : n < 2 ^ 64)
    (hwrap : ¬ c.Fits n) : huCalcSysSize c (huCalcUserSize n) ≤ c.fence := by
  have hmod : c.fence % 2 ^ 64 ≤ c.fence := Nat.mod_le _ _
  rcases wraps_cases hpage hk hn hwrap with ⟨-, h⟩ | ⟨-, -, h⟩ | ⟨-, -, -, h⟩ <;> omega

/-- There is a page boundary in the address space, so a page is smaller than it. -/
theorem pageSize_small {sysPtr : Nat} (hpage : c.huPageSize = 2 ^ k) (hpos : 0 < sysPtr)
    (halign : sysPtr % c.huPageSize = 0) (hlt : sysPtr < 2 ^ 64) : k < 64 := by
  have hle : c.huPageSize ≤ sysPtr := Nat.le_of_dvd hpos (Nat.dvd_of_mod_eq_zero halign)
  rw [hpage] at hle
  exact (Nat.pow_lt_pow_iff_right (by decide)).mp (hle.trans_lt hlt)

/-- A granted request is never answered with the null pointer. -/
theorem userPtr_ne_zero {sysPtr : Nat} (hpage : c.huPageSize = 2 ^ k) (hn : 0 < n)
    (hn' : n < 2 ^ 64) (hpos : 0 < sysPtr) (halign : sysPtr % c.huPageSize = 0)
    (hin : sysPtr + huCalcSysSize c (huCalcUserSize n) ≤ 2 ^ 64) (hlt : sysPtr < 2 ^ 64) :
    (allocInfoAt c n sysPtr).userPtr ≠ 0 := by
  by_cases hfit : c.Fits n
  · rw [hfit.sysSize] at hin
    have hle : sysPtr ≤ (allocInfoAt c n sysPtr).userPtr :=
      (allocInfoAt_shaped hn hfit halign hpos hin).sysPtr_le
    omega
  cases ho : c.huOverflow with
  | false => simp [allocInfoAt, ho, hpos.ne']
  | true =>
    have hle : c.huPageSize ≤ sysPtr := Nat.le_of_dvd hpos (Nat.dvd_of_mod_eq_zero halign)
    have hk := pageSize_small hpage hpos halign hlt
    have hdvd : c.huPageSize ∣ 2 ^ 64 := hpage ▸ Nat.pow_dvd_pow 2 hk.le
    have hend := add_le_of_dvd (Nat.dvd_of_mod_eq_zero halign) hdvd hlt
    have hpagepos : 0 < c.huPageSize := hpage ▸ Nat.two_pow_pos k
    have hfence : c.fence % 2 ^ 64 = c.huPageSize := by
      rw [MallocConfig.fence, if_pos ho, Nat.mod_eq_of_lt (by omega)]
    simp only [allocInfoAt, ho, if_true, true_and]
    rcases wraps_cases hpage hk.le hn' hfit with ⟨hu, hs⟩ | ⟨hu, hu', hs⟩ | ⟨-, hu, hu', hs⟩
    · rw [hs, hfence, sub_add_eq (by omega) (by omega), Nat.add_sub_cancel, if_pos hpos.ne', hu,
        sub_eq (Nat.zero_le _) hlt]
      omega
    · rw [hs, hfence, sub_add_eq (by omega) (by omega), Nat.add_sub_cancel, if_pos hpos.ne', ne_eq,
        sub_eq_zero hlt hu']
      omega
    · rw [hs, sub_add_eq (by omega) (by omega), Nat.add_zero]
      split
      · rw [ne_eq, sub_eq_zero (by omega) (by omega)]
        omega
      · exact hpos.ne'

end Wrapping

/-! ## §2 Deliveries -/

/-- What a request for `n` bytes may come back with: nothing; a block of the C
library; or room for `n` bytes in a new region, in front of the fence page,
which is the last page of that region. No other page is protected. -/
inductive Delivered (c : MallocConfig) (ans : SysAns) (n : Nat) (s : HuState)
    (r : HuState × Nat) : Prop where
  | null (hnull : r.2 = 0) (harena : r.1.sys.arena.blocks = s.sys.arena.blocks)
      (hprot : r.1.sys.prot = s.sys.prot)
  | plain (hpass : PassThrough c s n)
      (harena : r.1.sys.arena.blocks = ⟨r.2, n, .malloc⟩ :: s.sys.arena.blocks)
      (hprot : r.1.sys.prot = s.sys.prot)
  | fenced (region : Region) (hregion : region.tag = .memalign)
      (harena : r.1.sys.arena.blocks = region :: s.sys.arena.blocks)
      (hstart : region.base ≤ r.2) (hroom : r.2 + n + c.fence ≤ region.base + region.size)
      (hprot : ∀ a, r.1.sys.prot a =
        if c.huOverflow = true ∧
            ans.mprotectOk (region.base + region.size - c.huPageSize) c.huPageSize .none = true ∧
            region.base + region.size - c.huPageSize ≤ a ∧ a < region.base + region.size
        then .none else s.sys.prot a)

/-- The request is to be fenced, and `posix_memalign` has the memory it asks for. -/
structure FenceGranted (c : MallocConfig) (ans : SysAns) (n : Nat) (s : HuState) : Prop where
  inited : s.mal.huMallocInited = true
  pos : 0 < n
  word : n < 2 ^ 64
  analysed : c.huMinsize ≤ n
  aligned : ans.ptr % c.huPageSize = 0
  admits : s.sys.arena.Admits (fencedRegion c ans n)

section Deliveries

variable {c : MallocConfig} {ans : SysAns} {n k : Nat} {s : HuState}

/-- Only the pointer, the regions and the protections matter. -/
theorem Delivered.congr {r r' : HuState × Nat} (h : Delivered c ans n s r) (hq : r'.2 = r.2)
    (harena : r'.1.sys.arena = r.1.sys.arena) (hprot : r'.1.sys.prot = r.1.sys.prot) :
    Delivered c ans n s r' := by
  cases h with
  | null h1 h2 h3 => exact .null (by rw [hq, h1]) (by rw [harena, h2]) (by rw [hprot, h3])
  | plain h1 h2 h3 => exact .plain h1 (by rw [harena, h2, hq]) (by rw [hprot, h3])
  | fenced region h1 h2 h3 h4 h5 =>
    exact .fenced region h1 (by rw [harena, h2]) (by rw [hq]; exact h3) (by rw [hq]; exact h4)
      (by rw [hprot]; exact h5)

theorem FenceGranted.userPtr_ne_zero (h : FenceGranted c ans n s) (hpage : c.huPageSize = 2 ^ k) :
    (allocInfoAt c n ans.ptr).userPtr ≠ 0 := by
  have hstop := h.admits.2.1
  have hle := (fencedRegion c ans n).base_add_size_le
  have hlt := (fencedRegion c ans n).base_lt_stop
  exact Heapusage.userPtr_ne_zero hpage h.pos h.word h.admits.1 h.aligned (hle.trans hstop)
    (hlt.trans_le hstop)

theorem FenceGranted.result (h : FenceGranted c ans n s) (hpage : c.huPageSize = 2 ^ k) :
    (huMalloc c ans n s).2 ≠ 0 := by
  have hn := h.pos
  rw [huMalloc_result, if_pos ⟨h.inited, by omega, h.analysed⟩, if_pos ⟨h.aligned, h.admits⟩]
  exact h.userPtr_ne_zero hpage

/-- A granted request is served exactly if its size computation does not wrap. -/
theorem delivered_fenced_iff (h : FenceGranted c ans n s) (hpage : c.huPageSize = 2 ^ k) :
    Delivered c ans n s (storeAllocInfo (allocInfoAt c n ans.ptr) (fencedAt c ans n s h.admits),
      (allocInfoAt c n ans.ptr).userPtr) ↔ c.Fits n := by
  have harena : (storeAllocInfo (allocInfoAt c n ans.ptr)
      (fencedAt c ans n s h.admits)).sys.arena.blocks =
      fencedRegion c ans n :: s.sys.arena.blocks := by
    simp only [storeAllocInfo, fencedAt_arena]
    rfl
  have hstop := h.admits.2.1
  have hle := (fencedRegion c ans n).base_add_size_le
  constructor
  · intro hdel
    by_contra hwrap
    cases hdel with
    | null hnull => exact h.userPtr_ne_zero hpage hnull
    | plain hpass harena' =>
      rw [harena] at harena'
      have htag := congrArg Block.tag (List.cons.inj harena').1
      cases htag
    | fenced region hregion harena' hstart hroom =>
      rw [harena] at harena'
      have hlt : ans.ptr < 2 ^ 64 := (fencedRegion c ans n).base_lt_stop.trans_le hstop
      have hk : k < 64 := pageSize_small hpage h.admits.1 h.aligned hlt
      have hsize : (fencedRegion c ans n).size ≤ c.fence :=
        sysSize_le_fence hpage hk.le h.word hwrap
      have hpos := h.pos
      rw [← (List.cons.inj harena').1] at hstart hroom
      omega
  · intro hfit
    have hsize : (fencedRegion c ans n).size = c.exactSysSize n := hfit.sysSize
    have hbase : (fencedRegion c ans n).base = ans.ptr := rfl
    have hshaped : (allocInfoAt c n ans.ptr).Shaped c :=
      allocInfoAt_shaped_of_stop h.pos hfit h.aligned h.admits.1 hstop
    refine .fenced (fencedRegion c ans n) rfl harena hshaped.sysPtr_le hshaped.user_le ?_
    intro a
    rw [hsize, hbase]
    exact fencedAt_prot_page c ans n s h.admits hfit h.aligned a

/-- Not to be fenced, and so handed to the C library. -/
theorem PassThrough.not_granted (h : PassThrough c s n) : ¬ FenceGranted c ans n s := by
  intro hgranted
  obtain ⟨hinit, hpos, -, hmin, -⟩ := hgranted
  rcases h with h | h | h
  · rw [hinit] at h
    exact absurd h (by decide)
  · omega
  · omega

theorem delivered_huMalloc_iff (hpage : c.huPageSize = 2 ^ k) (hn : n < 2 ^ 64) :
    Delivered c ans n s (huMalloc c ans n s) ↔ (FenceGranted c ans n s → c.Fits n) := by
  rcases huMalloc_cases c ans n s with ⟨hpass, h⟩ | ⟨⟨hinit, hpos, hmin⟩, h | ⟨halign, hr, h⟩⟩
  · constructor
    · intro _ hgranted
      exact absurd hgranted hpass.not_granted
    · intro _
      rw [h, HuState.libcMalloc]
      rcases SysHeap.libcMalloc_cases ans s.sys n with hm | ⟨hr, hm⟩
      · rw [hm]
        exact .null rfl rfl rfl
      · rw [hm]
        exact .plain hpass rfl rfl
  · constructor
    · intro _ hgranted
      have hne := hgranted.result hpage
      rw [h] at hne
      exact absurd rfl hne
    · intro _
      rw [h]
      exact .null rfl rfl rfl
  · have hgranted : FenceGranted c ans n s := ⟨hinit, hpos, hn, hmin, halign, hr⟩
    rw [h, delivered_fenced_iff hgranted hpage]
    exact ⟨fun hfit _ => hfit, fun hfit => hfit hgranted⟩

theorem delivered_libcCalloc (count size : Nat)
    (hpass : PassThrough c s (count * size)) :
    Delivered c ans (count * size) s (s.libcCalloc ans count size) := by
  rw [HuState.libcCalloc]
  rcases SysHeap.libcCalloc_cases ans s.sys count size with hm | ⟨hlt, hr, hm⟩
  · rw [hm]
    exact .null rfl rfl rfl
  · rw [hm]
    exact .plain hpass rfl rfl

theorem delivered_huCalloc_iff (hpage : c.huPageSize = 2 ^ k) (count size : Nat) :
    Delivered c ans (count * size) s (huCalloc c ans count size s) ↔
      (FenceGranted c ans (count * size) s → c.Fits (count * size)) := by
  have hplain : PassThrough c s (count * size) →
      huCalloc c ans count size s = s.libcCalloc ans count size →
      (Delivered c ans (count * size) s (huCalloc c ans count size s) ↔
        (FenceGranted c ans (count * size) s → c.Fits (count * size))) := by
    intro hpass h
    rw [h]
    exact ⟨fun _ hgranted => absurd hgranted hpass.not_granted,
      fun _ => delivered_libcCalloc count size hpass⟩
  cases hinit : s.mal.huMallocInited with
  | false => exact hplain (.inl hinit) (huCalloc_uninited c ans s hinit count size)
  | true =>
    rcases huCalloc_cases c ans count size s hinit with ⟨hzero, h⟩ | ⟨hwrap, h⟩ | ⟨-, hlt, h⟩
    · exact hplain (.inr (.inl hzero)) h
    · constructor
      · intro _ hgranted
        exact absurd hgranted.word (Nat.not_lt.mpr hwrap)
      · intro _
        rw [h]
        exact .null rfl rfl rfl
    · -- zeroing the block changes none of the three
      have harena := callocCleared_arena c ans (count * size) s
      have hprot := callocCleared_prot c ans (count * size) s
      rw [h, ← delivered_huMalloc_iff hpage hlt]
      exact ⟨fun hdel => hdel.congr rfl harena.symm hprot.symm,
        fun hdel => hdel.congr rfl harena hprot⟩

end Deliveries

/-! ## §3 Requests -/

/-- **Every request of `hu_malloc` and `hu_calloc`**, in every state and whatever
the system answers, comes back with nothing, with a block of the C library, or
with room for all its bytes in front of the fence of its own region, exactly if
a request that is granted has a size computation that does not wrap. -/
theorem requests_delivered_iff (c : MallocConfig) (k : Nat) (hpage : c.huPageSize = 2 ^ k)
    (ans : SysAns) (s : HuState) :
    (∀ n, 0 < n → n < 2 ^ 64 →
      (Delivered c ans n s (huMalloc c ans n s) ↔ (FenceGranted c ans n s → c.Fits n))) ∧
    ∀ count size, count < 2 ^ 64 → size < 2 ^ 64 →
      (Delivered c ans (count * size) s (huCalloc c ans count size s) ↔
        (FenceGranted c ans (count * size) s → c.Fits (count * size))) :=
  ⟨fun _ _ hn => delivered_huMalloc_iff hpage hn,
    fun count size _ _ => delivered_huCalloc_iff hpage count size⟩

/-- Fences, no quarantine, pages of 4096 bytes. -/
def fencesOnly : MallocConfig where
  huOverflow := true
  huUseafterfree := false
  huMinsize := 0
  huPageSize := 4096
  huQuarantineMaxSize := 0
  maxMapCount := 65530

/-- The state `hu_malloc_init` leaves. -/
def mallocReady : HuState := ⟨SysHeap.init, huMallocInit mallocStart, logInit⟩

/-- The system has the address 4096 and protects what it is asked to. -/
def answer4096 : SysAns := ⟨4096, fun _ => 0, fun _ _ _ => true⟩

/-- A request for five bytes has them, right in front of the fence page. -/
theorem requests_delivered_five :
    Delivered fencesOnly answer4096 5 mallocReady
      (huMalloc fencesOnly answer4096 5 mallocReady) :=
  ((requests_delivered_iff fencesOnly 12 rfl answer4096 mallocReady).1 5 (by decide)
    (by decide)).mpr (fun _ => by decide)

/-- A request for `2 ^ 64 - 1` bytes comes back with a pointer to the fence page. -/
theorem largest_request_undelivered :
    (huMalloc fencesOnly answer4096 (2 ^ 64 - 1) mallocReady).2 = 4096 ∧
      ¬ Delivered fencesOnly answer4096 (2 ^ 64 - 1) mallocReady
        (huMalloc fencesOnly answer4096 (2 ^ 64 - 1) mallocReady) := by
  have hgranted : FenceGranted fencesOnly answer4096 (2 ^ 64 - 1) mallocReady :=
    ⟨rfl, by decide, by decide, by decide, by decide, by decide⟩
  have hpage : fencesOnly.huPageSize = 2 ^ 12 := rfl
  refine ⟨by decide, ?_⟩
  rw [delivered_huMalloc_iff hpage (by decide)]
  exact fun h => absurd (h hgranted) (by decide)

end Heapusage
