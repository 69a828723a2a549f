/-
Heapusage.Main.FailedCalls — what a call that returns null does to the
accounting.

The wrappers log without looking at the result, so a failed request is
accounted for as if it had succeeded: null becomes a key of `allocations`, and
a failed `realloc` counts a free. `failed_call_accounts` says exactly which
failed calls leave the accounts as they were, for every state and every thread.
-/
import Heapusage.Main.HuMainTheorems

namespace Heapusage

open Tables

/-! ## The allocator half -/

/-- A request that gives no block up leaves the log as it was. -/
theorem allocHalf_log_null (c : HuConfig) (ans : SysAns) {call : Call} (s : HuState)
    (hreq : call.requested ≠ 0) (harg : call.argument = 0) :
    (allocHalf c ans call s).1.log = s.log := by
  unfold allocHalf
  split
  · cases call with
    | malloc size => exact huMalloc_log ..
    | free ptr => exact absurd rfl hreq
    | calloc nmemb size => exact huCalloc_log ..
    | realloc ptr size =>
      simp only [Call.argument] at harg
      subst harg
      cases hinit : s.mal.huMallocInited with
      | false =>
        rw [huCall, huRealloc_uninited _ _ _ _ hinit]
        rfl
      | true =>
        simp only [huCall, huRealloc, hinit, Bool.not_true, Bool.false_eq_true, if_false, if_true]
        exact huMalloc_log ..
  · rw [libcCall_log]

/-- The blocks a failed `realloc` of the block at `p` evicts. -/
def HuState.evictions (c : HuConfig) (p : Nat) (s : HuState) : List HuAllocInfo :=
  if c.huEnableHumalloc ∧ s.mal.huMallocInited then s.mal.evictions c.mallocConfig p else []

/-- A failed `realloc` of a block drops the records of what its release evicts. -/
theorem allocHalf_log_realloc (c : HuConfig) (ans : SysAns) {p n : Nat} (s : HuState)
    (hp : p ≠ 0) (hn : n ≠ 0) (hq : (allocHalf c ans (.realloc p n) s).2 = 0) :
    (allocHalf c ans (.realloc p n) s).1.log =
      forgetFreed c.logConfig (s.evictions c p) s.log := by
  unfold HuState.evictions
  unfold allocHalf at hq ⊢
  cases hon : c.huEnableHumalloc with
  | false =>
    simp only [Bool.false_eq_true, if_false, false_and, libcCall_log]
    rfl
  | true =>
    cases hinit : s.mal.huMallocInited with
    | false =>
      simp only [if_true, huCall, huRealloc_uninited _ _ _ _ hinit, Bool.false_eq_true, and_false,
        if_false]
      rfl
    | true =>
      rw [hon] at hq
      simp only [if_true, huCall, and_self] at hq ⊢
      rcases huRealloc_cases c.mallocConfig c.logConfig ans p n s hinit with ⟨h0, -⟩ | ⟨-, h0, -⟩ |
        ⟨-, -, b, hb, h⟩ | ⟨-, -, hb, h⟩
      · exact absurd h0 hp
      · exact absurd h0 hn
      · rw [h] at hq ⊢
        have hne : p ≠ (huMalloc c.mallocConfig ans n s).2 := by
          rw [hq]
          exact hp
        rw [huFree_log_eq _ _ _ _ _ (by simpa using hinit), reallocCopied_log]
        congr 1
        simp only [MallocState.evictions, reallocCopied_mal, huMalloc_queue, huMalloc_queueSize,
          huMalloc_addrs_ne _ _ _ _ hne, huMalloc_lookup_ne _ _ _ _ hne]
      · rw [h]
        simp only [MallocState.evictions, hb, ite_self]
        rfl

/-! ## The accounts -/

/-- The failed calls the accounting does not notice. One that the guards send
to the C library; one that gives up no block, is below the minimum size and
finds no freed record of null; and, while logging is off, any that evicts no
block with a freed record. -/
def Call.FailsUnnoticed (c : HuConfig) (t : ThreadLocal) (s : HuState) (call : Call) : Prop :=
  t.tracks = true →
    if call.argument = 0 then
      s.log.loggingEnabled = true →
        call.logged < c.huMinsize ∧
          (c.logConfig.keepsFreed = true → 0 ∉ s.log.freedAllocations)
    else
      s.log.loggingEnabled = false ∧
        (c.huDoublefree = false →
          ∀ b ∈ s.evictions c call.argument, b.userPtr ∉ s.log.freedAllocations)

instance (c : HuConfig) (t : ThreadLocal) (s : HuState) (call : Call) :
    Decidable (call.FailsUnnoticed c t s) := by
  unfold Call.FailsUnnoticed
  infer_instance

/-- The allocation event of null. -/
theorem logMalloc_null_accounts (c : LogConfig) (n : Nat) (cs : Callstack) (l : LogState) :
    (logMalloc c 0 n cs l).accounts = l.accounts ↔
      n < c.huLogMinleak ∧ (c.keepsFreed = true → 0 ∉ l.freedAllocations) := by
  by_cases hn : c.huLogMinleak ≤ n
  · constructor
    · intro h
      have htotal := congrArg Accounts.totalAllocs h
      simp only [LogState.accounts, logMalloc_totalAllocs c 0 n cs l hn] at htotal
      exact absurd htotal (by simp)
    · intro hboth
      obtain ⟨hlt, -⟩ := hboth
      omega
  · rw [logMalloc_small c 0 n cs l hn]
    cases hk : c.keepsFreed with
    | false => simp [Nat.not_le.mp hn]
    | true =>
      simp only [if_true, Nat.not_le.mp hn, true_and, forall_const]
      constructor
      · intro h hmem
        have hfreed := congrFun (congrArg Accounts.freedAllocations h) 0
        simp only [LogState.accounts, AList.lookup_erase] at hfreed
        exact AList.lookup_eq_none.mp hfreed.symm hmem
      · intro hmem
        rw [erase_of_not_mem hmem]

/-- Dropping records leaves the accounts as they were if there were none. -/
theorem forgetFreed_accounts (lc : LogConfig) (blocks : List HuAllocInfo) (l : LogState) :
    (forgetFreed lc blocks l).accounts = l.accounts ↔
      (lc.huLogFree = false → ∀ b ∈ blocks, b.userPtr ∉ l.freedAllocations) := by
  constructor
  · intro h hoff b hb
    have hfreed := congrFun (congrArg Accounts.freedAllocations h) b.userPtr
    simp only [LogState.accounts] at hfreed
    rw [forgetFreed_lookup, if_pos ⟨hoff, List.mem_map.mpr ⟨b, hb, rfl⟩⟩] at hfreed
    exact AList.lookup_eq_none.mp hfreed.symm
  · intro h
    have hev := forgetFreed_evicted lc blocks l
    have hfreed : ∀ k, (forgetFreed lc blocks l).freedAllocations.lookup k =
        l.freedAllocations.lookup k := by
      intro k
      rw [forgetFreed_lookup]
      split
      · rename_i hk
        obtain ⟨b, hb, rfl⟩ := List.mem_map.mp hk.2
        exact (AList.lookup_eq_none.mpr (h hk.1 b hb)).symm
      · rfl
    rw [hev.rest]
    simp only [LogState.accounts, hfreed]

section Events

variable {c : LogConfig} {e : CallEnv} {l : LogState}

/-- The events of a failed call that gives up no block: one allocation of null. -/
theorem logEvents_fresh_accounts {call : Call} (hfailed : call.Failed 0)
    (harg : call.argument = 0) :
    (logEvents c e 0 call l).accounts = l.accounts ↔
      (l.loggingEnabled = true →
        call.logged < c.huLogMinleak ∧ (c.keepsFreed = true → 0 ∉ l.freedAllocations)) := by
  have hal := hfailed.allocs
  have hfr : call.frees = none := by
    cases call with
    | malloc size => rfl
    | free ptr => exact absurd rfl hfailed.1
    | calloc nmemb size => rfl
    | realloc ptr size =>
      simp only [Call.argument] at harg
      simp [Call.frees, harg]
  rw [logEvents, freeEvent_of_none _ _ _ _ hfr]
  cases hon : l.loggingEnabled with
  | false => simp [allocEvent, hal, logEvent, hon]
  | true =>
    rw [allocEvent_of_some _ _ _ _ _ hal hon, logMalloc_null_accounts]
    simp only [forall_const]

/-- The events of a failed `realloc` of a block: the free is counted. -/
theorem logEvents_realloc_frees {p n : Nat} (hp : p ≠ 0) (hfailed : (Call.realloc p n).Failed 0)
    (hon : l.loggingEnabled = true)
    (hreturns : (logEvents c e 0 (.realloc p n) l).uncaught = false) :
    (logEvents c e 0 (.realloc p n) l).allocinfoTotalFrees = l.allocinfoTotalFrees + 1 := by
  have hfr : (Call.realloc p n).frees = some p := by simp [Call.frees, hp]
  rw [logEvents, allocEvent_of_some _ _ _ _ _ hfailed.allocs (by rw [freeEvent_enabled, hon]),
    freeEvent_of_some _ _ _ _ hfr hon] at hreturns ⊢
  rw [logMalloc_uncaught] at hreturns
  rw [logMalloc_totalFrees, logFree_totalFrees _ _ _ _ hreturns]

end Events

/-- **Which failed calls leave the accounting unchanged**: for every state,
thread and environment, exactly those of `Call.FailsUnnoticed`. -/
theorem failed_call_accounts (c : HuConfig) (e : CallEnv) (t : ThreadLocal) (call : Call)
    (s : HuState) (hfailed : call.Failed (wrapper c e t call s).2)
    (hreturns : (wrapper c e t call s).1.log.uncaught = false) :
    (wrapper c e t call s).1.log.accounts = s.log.accounts ↔ call.FailsUnnoticed c t s := by
  unfold Call.FailsUnnoticed
  rw [wrapper_eq] at hfailed hreturns ⊢
  cases htracks : t.tracks with
  | false => simp
  | true =>
    simp only [htracks, if_true, forall_const] at hfailed hreturns ⊢
    rw [logHalf_log, hfailed.2] at hreturns ⊢
    have hnull : call.Failed 0 := ⟨hfailed.1, rfl⟩
    by_cases harg : call.argument = 0
    · rw [if_pos harg, allocHalf_log_null c e.ans s hfailed.1 harg]
      exact logEvents_fresh_accounts hnull harg
    · rw [if_neg harg]
      cases call with
      | malloc size => exact absurd rfl harg
      | free ptr => exact absurd rfl hfailed.1
      | calloc nmemb size => exact absurd rfl harg
      | realloc ptr size =>
        simp only [Call.argument] at harg
        have hn : size ≠ 0 := hfailed.1
        rw [allocHalf_log_realloc c e.ans s harg hn hfailed.2] at hreturns ⊢
        set l₁ := forgetFreed c.logConfig (s.evictions c ptr) s.log with hl₁
        have hev : s.log.Evicted l₁ := forgetFreed_evicted ..
        cases hon : s.log.loggingEnabled with
        | false =>
          have hoff : l₁.loggingEnabled = false := by rw [hev.enabled, hon]
          rw [logEvents_off hoff, hl₁, forgetFreed_accounts]
          simp only [true_and]
          rfl
        | true =>
          have hon₁ : l₁.loggingEnabled = true := by rw [hev.enabled, hon]
          have hfrees := logEvents_realloc_frees harg hnull hon₁ hreturns
          simp only [Bool.true_eq_false, false_and, iff_false]
          intro h
          have htotal : (logEvents c.logConfig e 0 (.realloc ptr size) l₁).allocinfoTotalFrees =
              s.log.allocinfoTotalFrees := congrArg Accounts.totalFrees h
          rw [hfrees, hev.rest] at htotal
          exact absurd htotal (by simp)

/-- The first call of a program, a `malloc` the C library cannot serve, lists
null as an allocated block. -/
theorem failed_malloc_listed :
    let c := HuConfig.tools false false false 0
    let r := wrapper c (.answering 0) .fresh (.malloc 8) (huInit c)
    (Call.malloc 8).Failed r.2 ∧ r.1.log.sizeAt 0 = some 8 ∧
      r.1.log.accounts ≠ (huInit c).log.accounts := by
  refine ⟨by decide, by decide, fun h => ?_⟩
  exact absurd (congrArg Accounts.totalAllocs h) (by decide)

/-- Below the minimum size the same failure goes unnoticed. -/
theorem failed_call_accounts_small :
    let c := HuConfig.tools false false false 16
    let r := wrapper c (.answering 0) .fresh (.malloc 8) (huInit c)
    r.1.log.accounts = (huInit c).log.accounts :=
  (failed_call_accounts (.tools false false false 16) (.answering 0) .fresh (.malloc 8) _
    (by decide) (by decide)).mpr (by decide)

end Heapusage
