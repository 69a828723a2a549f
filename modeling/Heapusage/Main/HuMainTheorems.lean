/-
Heapusage.Main.HuMainTheorems — the two halves of a tracked call.

§1 The allocator half changes the log only by evictions.
§2 The log half changes nothing but the log: a free event if the call gives a
   block up (`Call.frees`), then an allocation event if it asks for one
   (`Call.allocs`), in this order, for all four wrappers (`logHalf_log`).
§3 Whether a request fails is decided by the offer of the system
   (`Call.Granted`, `allocHalf_failed_iff`).
-/
import Heapusage.Main.HuMain
import Heapusage.Malloc.HuMallocTheorems

namespace Heapusage

open Tables

/-! ## §1 The allocator half -/

section Init

variable (c : HuConfig)

@[simp] theorem huInit_inited : (huInit c).mal.huMallocInited = c.huEnableHumalloc := by
  unfold huInit
  cases c.huEnableHumalloc <;> rfl

@[simp] theorem huInit_active : (huInit c).mal.huActiveAllocs = ∅ := by
  unfold huInit
  cases c.huEnableHumalloc <;> rfl

@[simp] theorem huInit_queue : (huInit c).mal.huQuarantineAllocs = [] := by
  unfold huInit
  cases c.huEnableHumalloc <;> rfl

end Init

section AllocHalf

variable (c : HuConfig) (ans : SysAns) (call : Call) (s : HuState)

@[simp] theorem libcCall_mal : (libcCall ans call s).1.mal = s.mal := by
  cases call <;> rfl

@[simp] theorem libcCall_log : (libcCall ans call s).1.log = s.log := by
  cases call <;> rfl

theorem huCall_log (mc : MallocConfig) (lc : LogConfig) :
    s.log.Evicted (huCall mc lc ans call s).1.log := by
  cases call with
  | malloc size =>
    rw [huCall, huMalloc_log]
    exact LogState.Evicted.refl _
  | free ptr => exact huFree_log mc lc ans ptr s
  | calloc nmemb size =>
    rw [huCall, huCalloc_log]
    exact LogState.Evicted.refl _
  | realloc ptr size => exact huRealloc_log mc lc ans ptr size s

theorem huCall_inited (mc : MallocConfig) (lc : LogConfig) :
    (huCall mc lc ans call s).1.mal.huMallocInited = s.mal.huMallocInited := by
  cases call with
  | malloc size => exact huMalloc_inited mc ans size s
  | free ptr => exact huFree_inited mc lc ans ptr s
  | calloc nmemb size => exact huCalloc_inited mc ans nmemb size s
  | realloc ptr size => exact huRealloc_inited mc lc ans ptr size s

/-- `free` answers null. -/
theorem huCall_free (mc : MallocConfig) (lc : LogConfig) {ptr : Nat} (h : call = .free ptr) :
    (huCall mc lc ans call s).2 = 0 := by
  rw [h]
  rfl

theorem allocHalf_log : s.log.Evicted (allocHalf c ans call s).1.log := by
  unfold allocHalf
  split
  · exact huCall_log ans call s _ _
  · rw [libcCall_log]
    exact LogState.Evicted.refl _

/-- A `calloc` that returns a block had a product that fits. -/
theorem allocHalf_calloc_fits {nmemb size : Nat}
    (h : (allocHalf c ans (.calloc nmemb size) s).2 ≠ 0) : nmemb * size < 2 ^ 64 := by
  have hlibc : (s.libcCalloc ans nmemb size).2 ≠ 0 → nmemb * size < 2 ^ 64 := by
    intro hq
    rcases SysHeap.libcCalloc_cases ans s.sys nmemb size with hc | ⟨hfit, -⟩
    · exact absurd (by rw [HuState.libcCalloc, hc]) hq
    · exact hfit
  unfold allocHalf at h
  split at h
  · simp only [huCall] at h
    cases hinit : s.mal.huMallocInited with
    | false =>
      rw [huCalloc_uninited c.mallocConfig ans s hinit] at h
      exact hlibc h
    | true =>
      rcases huCalloc_cases c.mallocConfig ans nmemb size s hinit with ⟨-, heq⟩ | ⟨-, heq⟩ |
        ⟨-, hfit, -⟩
      · rw [heq] at h
        exact hlibc h
      · exact absurd (by rw [heq]) h
      · exact hfit
  · exact hlibc h

theorem allocHalf_inited :
    (allocHalf c ans call s).1.mal.huMallocInited = s.mal.huMallocInited := by
  unfold allocHalf
  split
  · exact huCall_inited ans call s _ _
  · rw [libcCall_mal]

end AllocHalf

/-! ## §2 The log half -/

namespace Call

/-- The pointer of the free event of a call. -/
def frees : Call → Option Nat
  | .malloc _ => none
  | .free ptr => some ptr
  | .calloc _ _ => none
  | .realloc ptr _ => if ptr ≠ 0 then some ptr else none

/-- The size of the allocation event of a call. -/
def allocs : Call → Option Nat
  | .malloc size => if size > 0 then some size else none
  | .free _ => none
  | .calloc nmemb size => if nmemb > 0 ∧ size > 0 then some (Words.mul 64 nmemb size) else none
  | .realloc _ size => if size ≠ 0 then some size else none

end Call

namespace Call

/-- The number of bytes a call asks for. -/
def requested : Call → Nat
  | .malloc size => size
  | .free _ => 0
  | .calloc nmemb size => nmemb * size
  | .realloc _ size => size

/-- The block a call releases or resizes; null when there is none. -/
def argument : Call → Nat
  | .malloc _ => 0
  | .free ptr => ptr
  | .calloc _ _ => 0
  | .realloc ptr _ => ptr

theorem frees_eq_some {call : Call} {p : Nat} (h : call.frees = some p) : call.argument = p := by
  cases call with
  | malloc size => exact absurd h (by simp [frees])
  | free ptr => exact Option.some.inj h
  | calloc nmemb size => exact absurd h (by simp [frees])
  | realloc ptr size =>
    simp only [frees] at h
    split at h
    · exact Option.some.inj h
    · exact absurd h (by simp)

theorem frees_eq_none {call : Call} (h : call.frees = none) : call.argument = 0 := by
  cases call with
  | malloc size => rfl
  | free ptr => exact absurd h (by simp [frees])
  | calloc nmemb size => rfl
  | realloc ptr size =>
    simp only [frees] at h
    split at h
    · exact absurd h (by simp)
    · rename_i hp
      simpa [argument] using hp

theorem allocs_eq_none {call : Call} : call.allocs = none ↔ call.requested = 0 := by
  cases call with
  | malloc size => simp [allocs, requested]
  | free ptr => simp [allocs, requested]
  | calloc nmemb size =>
    simp only [allocs, requested, Nat.mul_eq_zero, gt_iff_lt, Nat.pos_iff_ne_zero]
    split
    · rename_i h
      simp [h.1, h.2]
    · rename_i h
      simp only [true_iff]
      by_contra hne
      rw [not_or] at hne
      exact h hne
  | realloc ptr size => simp [allocs, requested]

/-- The size of the allocation event, zero where there is none. -/
def logged (call : Call) : Nat := call.allocs.getD 0

/-- A request for a positive number of bytes that returned null. -/
def Failed (q : Nat) (call : Call) : Prop := call.requested ≠ 0 ∧ q = 0

instance (q : Nat) (call : Call) : Decidable (call.Failed q) :=
  inferInstanceAs (Decidable (_ ∧ _))

theorem Failed.allocs {call : Call} {q : Nat} (h : call.Failed q) :
    call.allocs = some call.logged := by
  cases hal : call.allocs with
  | none => exact absurd (allocs_eq_none.mp hal) h.1
  | some n => rw [logged, hal, Option.getD_some]

/-- The event carries the size asked for, if a product in it fits. -/
theorem allocs_eq {call : Call}
    (hfit : ∀ nmemb size, call = .calloc nmemb size → nmemb * size < 2 ^ 64) :
    call.allocs = if 0 < call.requested then some call.requested else none := by
  cases call with
  | malloc size => rfl
  | free ptr => rfl
  | calloc nmemb size =>
    simp only [allocs, requested, Words.mul_eq (hfit nmemb size rfl), gt_iff_lt,
      Nat.pos_iff_ne_zero, ne_eq, Nat.mul_eq_zero, not_or]
  | realloc ptr size => simp only [allocs, requested, Nat.pos_iff_ne_zero]

end Call

/-- A call that resizes a block that is not fenced returns null or the address the
system offers. -/
theorem huCall_answer (c : MallocConfig) (lc : LogConfig) (ans : SysAns) {call : Call} {s : HuState}
    (hinit : s.mal.huMallocInited = true) (hpos : 0 < call.requested) (hne : call.argument ≠ 0)
    (hact : call.argument ∉ s.mal.huActiveAllocs) :
    (huCall c lc ans call s).2 = 0 ∨ (huCall c lc ans call s).2 = ans.ptr := by
  cases call with
  | malloc size => exact absurd rfl hne
  | free ptr => exact absurd hpos (Nat.lt_irrefl 0)
  | calloc nmemb size => exact absurd rfl hne
  | realloc p n =>
    simp only [huCall]
    rcases huRealloc_cases c lc ans p n s hinit with ⟨hp, -⟩ | ⟨-, hn, -⟩ | ⟨-, -, b, hb, -⟩ |
      ⟨hp, -, -, heq⟩
    · exact absurd hp hne
    · exact absurd hn hpos.ne'
    · exact absurd (mem_of_lookup hb) hact
    · rw [heq]
      exact SysHeap.libcRealloc_answer ans s.sys hp n

/-- The free event of a call. -/
def freeEvent (c : LogConfig) (e : CallEnv) (call : Call) (l : LogState) : LogState :=
  match call.frees with
  | some ptr => logEvent c .free ptr 0 e.freeStack l
  | none => l

/-- The allocation event of a call that returned `q`. -/
def allocEvent (c : LogConfig) (e : CallEnv) (q : Nat) (call : Call) (l : LogState) : LogState :=
  match call.allocs with
  | some size => logEvent c .malloc q size e.allocStack l
  | none => l

/-- The events of a call that returned `q`. -/
def logEvents (c : LogConfig) (e : CallEnv) (q : Nat) (call : Call) (l : LogState) : LogState :=
  allocEvent c e q call (freeEvent c e call l)

section LogHalf

variable (c : HuConfig) (e : CallEnv) (q : Nat) (call : Call) (s : HuState)

theorem logHalf_log : (logHalf c e q call s).log = logEvents c.logConfig e q call s.log := by
  unfold logEvents allocEvent freeEvent
  cases call with
  | malloc size =>
    simp only [logHalf, Call.frees, Call.allocs]
    split <;> rfl
  | free ptr => rfl
  | calloc nmemb size =>
    simp only [logHalf, Call.frees, Call.allocs]
    split <;> rfl
  | realloc ptr size =>
    simp only [logHalf, Call.frees, Call.allocs]
    split <;> split <;> rfl

@[simp] theorem logHalf_sys : (logHalf c e q call s).sys = s.sys := by
  cases call with
  | malloc size =>
    simp only [logHalf]
    split <;> rfl
  | free ptr => rfl
  | calloc nmemb size =>
    simp only [logHalf]
    split <;> rfl
  | realloc ptr size =>
    simp only [logHalf]
    split <;> split <;> rfl

@[simp] theorem logHalf_mal : (logHalf c e q call s).mal = s.mal := by
  cases call with
  | malloc size =>
    simp only [logHalf]
    split <;> rfl
  | free ptr => rfl
  | calloc nmemb size =>
    simp only [logHalf]
    split <;> rfl
  | realloc ptr size =>
    simp only [logHalf]
    split <;> split <;> rfl

end LogHalf

section Fenced

variable {c : HuConfig} (hon : c.huEnableHumalloc = true) (e : CallEnv) (call : Call) (s : HuState)
include hon

/-- With the fenced allocator a tracked call returns what that does. -/
theorem fenced_result : (wrapper c e .fresh call s).2 =
    (huCall c.mallocConfig c.logConfig e.ans call s).2 := by
  rw [tracked_eq, allocHalf, if_pos hon]

theorem fenced_mal : (wrapper c e .fresh call s).1.mal =
    (huCall c.mallocConfig c.logConfig e.ans call s).1.mal := by
  rw [tracked_eq, logHalf_mal, allocHalf, if_pos hon]

theorem fenced_sys : (wrapper c e .fresh call s).1.sys =
    (huCall c.mallocConfig c.logConfig e.ans call s).1.sys := by
  rw [tracked_eq, logHalf_sys, allocHalf, if_pos hon]

/-- The log gets the events of the call. -/
theorem fenced_log : (wrapper c e .fresh call s).1.log =
    logEvents c.logConfig e (huCall c.mallocConfig c.logConfig e.ans call s).2 call
      (huCall c.mallocConfig c.logConfig e.ans call s).1.log := by
  rw [tracked_eq, logHalf_log, allocHalf, if_pos hon]

end Fenced

section Events

variable (c : LogConfig) (e : CallEnv) (q : Nat) (call : Call) (l : LogState)

theorem freeEvent_of_some {ptr : Nat} (h : call.frees = some ptr)
    (hlog : l.loggingEnabled = true) :
    freeEvent c e call l = logFree c ptr e.freeStack l := by
  simp [freeEvent, h, logEvent, hlog]

theorem freeEvent_of_none (h : call.frees = none) : freeEvent c e call l = l := by
  simp [freeEvent, h]

theorem allocEvent_of_some {size : Nat} (h : call.allocs = some size)
    (hlog : l.loggingEnabled = true) :
    allocEvent c e q call l = logMalloc c q size e.allocStack l := by
  simp [allocEvent, h, logEvent, hlog]

theorem allocEvent_of_none (h : call.allocs = none) : allocEvent c e q call l = l := by
  simp [allocEvent, h]

@[simp] theorem freeEvent_enabled :
    (freeEvent c e call l).loggingEnabled = l.loggingEnabled := by
  unfold freeEvent
  split
  · unfold logEvent
    split
    · exact logFree_enabled ..
    · rfl
  · rfl

@[simp] theorem allocEvent_enabled :
    (allocEvent c e q call l).loggingEnabled = l.loggingEnabled := by
  unfold allocEvent
  split
  · unfold logEvent
    split
    · exact logMalloc_enabled ..
    · rfl
  · rfl

variable {c e q call l}

/-- With logging off nothing is logged. -/
theorem logEvents_off (hoff : l.loggingEnabled = false) :
    logEvents c e q call l = l := by
  have hfree : freeEvent c e call l = l := by
    unfold freeEvent logEvent
    split
    · rw [hoff, if_neg Bool.false_ne_true]
    · rfl
  unfold logEvents allocEvent logEvent
  rw [hfree]
  split
  · rw [hoff, if_neg Bool.false_ne_true]
  · rfl

theorem freeEvent_allocations_ne (hlog : l.loggingEnabled = true) {k : Nat}
    (hk : k ≠ call.argument) :
    (freeEvent c e call l).allocations.lookup k = l.allocations.lookup k := by
  cases hfr : call.frees with
  | none => rw [freeEvent_of_none _ _ _ _ hfr]
  | some p =>
    rw [freeEvent_of_some _ _ _ _ hfr hlog, logFree_allocations,
      AList.lookup_erase_ne (Call.frees_eq_some hfr ▸ hk)]

theorem freeEvent_freed_ne (hlog : l.loggingEnabled = true) {k : Nat} (hk : k ≠ call.argument)
    {r : HuAllocinfoT} (h : (freeEvent c e call l).freedAllocations.lookup k = some r) :
    l.freedAllocations.lookup k = some r := by
  cases hfr : call.frees with
  | none => rwa [freeEvent_of_none _ _ _ _ hfr] at h
  | some p =>
    rw [freeEvent_of_some _ _ _ _ hfr hlog] at h
    exact logFree_freed_ne _ _ _ _ (Call.frees_eq_some hfr ▸ hk) h

theorem freeEvent_keyed (h : l.Keyed) : (freeEvent c e call l).Keyed := by
  unfold freeEvent
  split
  · unfold logEvent
    split
    · exact h.logFree _ _
    · exact h
  · exact h

theorem allocEvent_keyed (hkeep : c.keepsFreed = true) (h : l.Keyed) :
    (allocEvent c e q call l).Keyed := by
  unfold allocEvent
  split
  · unfold logEvent
    split
    · exact h.logMalloc hkeep _ _ _
    · exact h
  · exact h

theorem allocEvent_allocations_ne {k : Nat} (hk : k ≠ q) :
    (allocEvent c e q call l).allocations.lookup k = l.allocations.lookup k := by
  unfold allocEvent logEvent
  split
  · split
    · simp only [logMalloc_allocations]
      split
      · exact AList.lookup_insert_ne hk
      · rfl
    · rfl
  · rfl

theorem allocEvent_freed {k : Nat} {r : HuAllocinfoT}
    (h : (allocEvent c e q call l).freedAllocations.lookup k = some r) :
    l.freedAllocations.lookup k = some r := by
  unfold allocEvent logEvent at h
  split at h
  · split at h
    · simp only [logMalloc_freed] at h
      split at h
      · exact (lookup_erase_eq_some.mp h).2
      · exact h
    · exact h
  · exact h

end Events

/-! ## §3 What the system grants -/

/-- A request for `n` bytes gets a fenced block. -/
def HuState.Fences (c : HuConfig) (n : Nat) (s : HuState) : Prop :=
  c.huEnableHumalloc = true ∧ s.mal.huMallocInited = true ∧ n ≠ 0 ∧ c.huMinsize ≤ n

instance (c : HuConfig) (n : Nat) (s : HuState) : Decidable (s.Fences c n) :=
  inferInstanceAs (Decidable (_ ∧ _ ∧ _ ∧ _))

/-- The region a new block of `n` bytes takes can be had at the address on offer. -/
def HuState.HasRoom (c : HuConfig) (ans : SysAns) (n : Nat) (s : HuState) : Prop :=
  if s.Fences c n then
    ans.ptr % c.huPageSize = 0 ∧ s.sys.arena.Admits (fencedRegion c.mallocConfig ans n)
  else s.sys.arena.Admits ⟨ans.ptr, n, .malloc⟩

instance (c : HuConfig) (ans : SysAns) (n : Nat) (s : HuState) : Decidable (s.HasRoom c ans n) :=
  inferInstanceAs (Decidable (if s.Fences c n then
    ans.ptr % c.huPageSize = 0 ∧ s.sys.arena.Admits (fencedRegion c.mallocConfig ans n)
    else s.sys.arena.Admits ⟨ans.ptr, n, .malloc⟩))

/-- A `realloc` of the block at `p` is made of an allocation, a copy and a release. -/
def HuState.Copies (c : HuConfig) (p : Nat) (s : HuState) : Prop :=
  p = 0 ∨ c.huEnableHumalloc = true ∧ s.mal.huMallocInited = true ∧ p ∈ s.mal.huActiveAllocs

instance (c : HuConfig) (p : Nat) (s : HuState) : Decidable (s.Copies c p) :=
  inferInstanceAs (Decidable (_ ∨ _ ∧ _ ∧ _))

/-- The system grants what the call asks it for. -/
def Call.Granted (c : HuConfig) (ans : SysAns) (s : HuState) : Call → Prop
  | .malloc size => s.HasRoom c ans size
  | .free _ => True
  | .calloc nmemb size => nmemb * size < 2 ^ 64 ∧ s.HasRoom c ans (nmemb * size)
  | .realloc ptr size =>
      if s.Copies c ptr then s.HasRoom c ans size
      else (s.sys.arena.release ptr).Admits ⟨ans.ptr, size, .malloc⟩

instance (c : HuConfig) (ans : SysAns) (s : HuState) : DecidablePred (Call.Granted c ans s)
  | .malloc size => inferInstanceAs (Decidable (s.HasRoom c ans size))
  | .free _ => inferInstanceAs (Decidable True)
  | .calloc _ _ => inferInstanceAs (Decidable (_ ∧ _))
  | .realloc ptr size => inferInstanceAs (Decidable (if s.Copies c ptr then s.HasRoom c ans size
      else (s.sys.arena.release ptr).Admits ⟨ans.ptr, size, .malloc⟩))

/-- The address on offer to a request that gets no fenced block, or null. -/
def Call.offered (c : HuConfig) (ans : SysAns) (s : HuState) (call : Call) : Nat :=
  if call.Granted c ans s then ans.ptr else 0

/-- A call that asks for a positive number of bytes and does not get them. -/
def Call.Refused (c : HuConfig) (ans : SysAns) (s : HuState) (call : Call) : Prop :=
  call.requested ≠ 0 ∧ ¬ call.Granted c ans s

instance (c : HuConfig) (ans : SysAns) (s : HuState) (call : Call) :
    Decidable (call.Refused c ans s) :=
  inferInstanceAs (Decidable (_ ∧ _))

section Results

variable (c : HuConfig) (ans : SysAns) (s : HuState)

theorem hasRoom_of_fences {n : Nat} (h : s.Fences c n) : s.HasRoom c ans n ↔
    ans.ptr % c.huPageSize = 0 ∧ s.sys.arena.Admits (fencedRegion c.mallocConfig ans n) := by
  rw [HuState.HasRoom, if_pos h]

theorem hasRoom_of_not_fences {n : Nat} (h : ¬ s.Fences c n) :
    s.HasRoom c ans n ↔ s.sys.arena.Admits ⟨ans.ptr, n, .malloc⟩ := by
  rw [HuState.HasRoom, if_neg h]

theorem allocHalf_malloc_result (n : Nat) :
    (allocHalf c ans (.malloc n) s).2 =
      if s.HasRoom c ans n then
        if s.Fences c n then (allocInfoAt c.mallocConfig n ans.ptr).userPtr else ans.ptr
      else 0 := by
  by_cases hf : s.Fences c n
  · have hcond : s.mal.huMallocInited = true ∧ n ≠ 0 ∧ c.mallocConfig.huMinsize ≤ n := hf.2
    simp only [allocHalf, hf.1, if_true, huCall, hasRoom_of_fences c ans s hf, if_pos hf]
    rw [huMalloc_result, if_pos hcond]
    rfl
  · simp only [hasRoom_of_not_fences c ans s hf, if_neg hf]
    unfold allocHalf
    cases hon : c.huEnableHumalloc with
    | false => exact SysHeap.libcMalloc_result ans s.sys n
    | true =>
      have hcond : ¬ (s.mal.huMallocInited = true ∧ n ≠ 0 ∧ c.mallocConfig.huMinsize ≤ n) :=
        fun h => hf ⟨hon, h⟩
      simp only [if_true, huCall]
      rw [huMalloc_result, if_neg hcond]

theorem allocHalf_calloc_result {nmemb size : Nat} (hne : nmemb * size ≠ 0) :
    (allocHalf c ans (.calloc nmemb size) s).2 =
      if nmemb * size < 2 ^ 64 then (allocHalf c ans (.malloc (nmemb * size)) s).2 else 0 := by
  have hlibc : (s.libcCalloc ans nmemb size).2 =
      if nmemb * size < 2 ^ 64 then (s.libcMalloc ans (nmemb * size)).2 else 0 := by
    refine (SysHeap.libcCalloc_result ans s.sys nmemb size).trans ?_
    by_cases hfit : nmemb * size < 2 ^ 64
    · simp only [hfit, true_and, if_true]
      exact (SysHeap.libcMalloc_result ans s.sys (nmemb * size)).symm
    · simp only [hfit, false_and, if_false]
  unfold allocHalf
  cases c.huEnableHumalloc with
  | false => exact hlibc
  | true =>
    simp only [if_true, huCall]
    cases hinit : s.mal.huMallocInited with
    | true => exact huCalloc_result c.mallocConfig ans nmemb size s hinit hne
    | false =>
      have hmal : huMalloc c.mallocConfig ans (nmemb * size) s =
          s.libcMalloc ans (nmemb * size) := by simp [huMalloc, hinit]
      rw [huCalloc_uninited _ _ _ hinit, hmal]
      exact hlibc

/-- A `realloc` made of an allocation returns what the allocation does. -/
theorem allocHalf_copy_result {ptr size : Nat} (hz : size ≠ 0) (hcopy : s.Copies c ptr) :
    (allocHalf c ans (.realloc ptr size) s).2 = (allocHalf c ans (.malloc size) s).2 := by
  unfold allocHalf
  rcases hcopy with rfl | ⟨hon, hinit, hact⟩
  · cases c.huEnableHumalloc with
    | false => rfl
    | true =>
      simp only [if_true, huCall]
      cases hinit : s.mal.huMallocInited with
      | false =>
        have hmal : huMalloc c.mallocConfig ans size s = s.libcMalloc ans size := by
          simp [huMalloc, hinit]
        rw [huRealloc_uninited _ _ _ _ hinit, hmal]
        rfl
      | true => simp [huRealloc, hinit]
  · simp only [hon, if_true, huCall]
    obtain ⟨b, hb⟩ := exists_lookup hact
    rcases huRealloc_cases c.mallocConfig c.logConfig ans ptr size s hinit with ⟨-, h⟩ |
      ⟨-, h, -⟩ | ⟨-, -, _, -, h⟩ | ⟨-, -, hnone, -⟩
    · rw [h]
    · exact absurd h hz
    · rw [h]
    · rw [hb] at hnone
      cases hnone

/-- Any other `realloc` is the C library's. -/
theorem allocHalf_resize_result {ptr size : Nat} (hz : size ≠ 0) (hcopy : ¬ s.Copies c ptr)
    {r : Region} (hr : s.sys.arena.find ptr = some r) :
    (allocHalf c ans (.realloc ptr size) s).2 =
      if (s.sys.arena.release ptr).Admits ⟨ans.ptr, size, .malloc⟩ then ans.ptr else 0 := by
  have hp : ptr ≠ 0 := fun h => hcopy (.inl h)
  have hlibc : (s.libcRealloc ans ptr size).2 =
      if (s.sys.arena.release ptr).Admits ⟨ans.ptr, size, .malloc⟩ then ans.ptr else 0 :=
    SysHeap.libcRealloc_result ans s.sys hp hr hz
  unfold allocHalf
  cases hon : c.huEnableHumalloc with
  | false => exact hlibc
  | true =>
    simp only [if_true, huCall]
    cases hinit : s.mal.huMallocInited with
    | false =>
      rw [huRealloc_uninited _ _ _ _ hinit]
      exact hlibc
    | true =>
      rcases huRealloc_cases c.mallocConfig c.logConfig ans ptr size s hinit with ⟨h, -⟩ |
        ⟨-, h, -⟩ | ⟨-, -, b, hb, -⟩ | ⟨-, -, -, h⟩
      · exact absurd h hp
      · exact absurd h hz
      · exact absurd (.inr ⟨hon, hinit, mem_of_lookup hb⟩) hcopy
      · rw [h]
        exact hlibc

variable {c ans s}

/-- A new block is null only if there is no room for it. -/
theorem allocHalf_malloc_eq_zero {n : Nat}
    (hplaced : s.Fences c n → c.mallocConfig.Placed n) :
    (allocHalf c ans (.malloc n) s).2 = 0 ↔ ¬ s.HasRoom c ans n := by
  rw [allocHalf_malloc_result]
  by_cases hroom : s.HasRoom c ans n
  · simp only [hroom, if_true, not_true_eq_false, iff_false]
    split
    · rename_i hf
      rw [hasRoom_of_fences c ans s hf] at hroom
      exact hroom.2.ne_zero_of_holds (allocInfoAt_holds (hplaced hf) hroom.2.2.1)
    · rename_i hf
      rw [hasRoom_of_not_fences c ans s hf] at hroom
      exact hroom.base_ne_zero
  · simp only [hroom, if_false, not_false_eq_true]

/-- **A request fails exactly if the system refuses it.** -/
theorem allocHalf_failed_iff {call : Call}
    (hplaced : s.Fences c call.requested → c.mallocConfig.Placed call.requested)
    (hfind : ¬ s.Copies c call.argument → ∃ r, s.sys.arena.find call.argument = some r) :
    call.Failed (allocHalf c ans call s).2 ↔ call.Refused c ans s := by
  refine and_congr_right fun hreq => ?_
  cases call with
  | malloc size => exact allocHalf_malloc_eq_zero hplaced
  | free ptr => exact absurd rfl hreq
  | calloc nmemb size =>
    rw [allocHalf_calloc_result c ans s hreq]
    by_cases hfit : nmemb * size < 2 ^ 64
    · simp only [hfit, if_true, Call.Granted, true_and]
      exact allocHalf_malloc_eq_zero hplaced
    · simp only [hfit, if_false, Call.Granted, false_and, not_false_eq_true]
  | realloc ptr size =>
    have hz : size ≠ 0 := hreq
    by_cases hcopy : s.Copies c ptr
    · rw [allocHalf_copy_result c ans s hz hcopy]
      simp only [Call.Granted, hcopy, if_true]
      exact allocHalf_malloc_eq_zero hplaced
    · obtain ⟨r, hr⟩ := hfind hcopy
      rw [allocHalf_resize_result c ans s hz hcopy hr]
      simp only [Call.Granted, hcopy, if_false]
      split
      · rename_i hadm
        simp only [hadm, not_true_eq_false, iff_false]
        exact hadm.base_ne_zero
      · rename_i hadm
        simp only [hadm, not_false_eq_true]

/-- A request below the minimum size that gives up no block gets what is on offer. -/
theorem allocHalf_small_result {call : Call} (hfrees : call.frees = none)
    (hreq : call.requested ≠ 0) (hsmall : call.logged < c.huMinsize) :
    (allocHalf c ans call s).2 = call.offered c ans s := by
  have hplain : ∀ n, n < c.huMinsize → ¬ s.Fences c n := fun n hn hf => by
    have hle := hf.2.2.2
    omega
  have hmalloc : ∀ n, n < c.huMinsize → (allocHalf c ans (.malloc n) s).2 =
      if s.HasRoom c ans n then ans.ptr else 0 := by
    intro n hn
    rw [allocHalf_malloc_result, if_neg (hplain n hn)]
  cases call with
  | malloc size =>
    refine hmalloc size ?_
    have hpos : size > 0 := Nat.pos_of_ne_zero hreq
    simpa [Call.logged, Call.allocs, hpos] using hsmall
  | free ptr => exact absurd rfl hreq
  | calloc nmemb size =>
    rw [allocHalf_calloc_result c ans s hreq]
    by_cases hfit : nmemb * size < 2 ^ 64
    · simp only [hfit, if_true, Call.offered, Call.Granted, true_and]
      refine hmalloc (nmemb * size) ?_
      have hpos : nmemb > 0 ∧ size > 0 := by
        obtain ⟨h1, h2⟩ := Nat.mul_ne_zero_iff.mp hreq
        exact ⟨Nat.pos_of_ne_zero h1, Nat.pos_of_ne_zero h2⟩
      simpa [Call.logged, Call.allocs, hpos, Words.mul_eq hfit] using hsmall
    · simp only [hfit, if_false, Call.offered, Call.Granted, false_and]
  | realloc ptr size =>
    have hz : size ≠ 0 := hreq
    have hcopy : s.Copies c ptr := .inl (Call.frees_eq_none hfrees)
    rw [allocHalf_copy_result c ans s hz hcopy]
    simp only [Call.offered, Call.Granted, hcopy, if_true]
    refine hmalloc size ?_
    simpa [Call.logged, Call.allocs, hz] using hsmall

end Results

end Heapusage
