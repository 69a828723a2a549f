/-
Heapusage.Log.Ledger — the counters of bytes over whole runs of `log_event`.

§1 Runs    — sequences of events from the state `hu_init` leaves.
§2 Events  — what one event does to the counters and to the sum of the sizes in
             `allocations` (`LogState.liveBytes`).
§3 Ledger  — the counters against the history of the run (`Ledger.next`):
             current bytes against the table, totals against the events so far,
             the peak against all prefixes.
§4 The ledger of a run (`byte_ledger`). The number of allocations is counted in
             64 bits, and a run of empty blocks can wrap it without a byte
             being allocated (`empty_blocks_wrap`).
-/
import Heapusage.Lib.Run
import Heapusage.Log.HuLogTheorems
import Mathlib.Algebra.BigOperators.Group.List.Basic
import Mathlib.Order.Bounds.Defs

namespace Heapusage

open Runs Tables

/-! ## §1 Runs -/

/-- One call of `log_event`, with the callstack captured in it. -/
structure LogInput where
  event : Event
  ptr : Nat
  size : Nat
  callstack : Callstack

/-- The log `hu_init` leaves. -/
def logStart : LogState := logEnable true logInit

def logNext (c : LogConfig) (l : LogState) (i : LogInput) : LogState :=
  logEvent c i.event i.ptr i.size i.callstack l

theorem logNext_malloc {c : LogConfig} {l : LogState} {i : LogInput}
    (hon : l.loggingEnabled = true) (hmalloc : i.event = .malloc) :
    logNext c l i = logMalloc c i.ptr i.size i.callstack l := by
  simp only [logNext, logEvent, hon, if_true, hmalloc]

theorem logNext_free {c : LogConfig} {l : LogState} {i : LogInput}
    (hon : l.loggingEnabled = true) (hfree : i.event = .free) :
    logNext c l i = logFree c i.ptr i.callstack l := by
  simp only [logNext, logEvent, hon, if_true, hfree]

theorem logNext_enabled {c : LogConfig} {l : LogState} {i : LogInput}
    (hon : l.loggingEnabled = true) : (logNext c l i).loggingEnabled = true := by
  cases hevent : i.event with
  | malloc => rw [logNext_malloc hon hevent, logMalloc_enabled, hon]
  | free => rw [logNext_free hon hevent, logFree_enabled, hon]

/-- An allocation event of at least the minimum size. -/
def LogInput.Tracked (c : LogConfig) (i : LogInput) : Prop :=
  i.event = .malloc ∧ c.huLogMinleak ≤ i.size

instance (c : LogConfig) : DecidablePred (LogInput.Tracked c) :=
  fun _ => inferInstanceAs (Decidable (_ ∧ _))

/-- The tracked allocation events of a run. -/
def trackedEvents (c : LogConfig) (is : List LogInput) : List LogInput :=
  is.filter (LogInput.Tracked c)

/-- The bytes they ask for. -/
def trackedBytes (c : LogConfig) (is : List LogInput) : Nat :=
  ((trackedEvents c is).map LogInput.size).sum

/-- An allocation event does not name a listed pointer. -/
def LogState.Fresh (l : LogState) (i : LogInput) : Prop := i.event = .malloc → i.ptr ∉ l.allocations

instance (l : LogState) (i : LogInput) : Decidable (l.Fresh i) :=
  inferInstanceAs (Decidable (_ → _))

/-- The sum of the sizes in `allocations`. -/
def LogState.liveBytes (l : LogState) : Nat := ((values l.allocations).map HuAllocinfoT.size).sum

@[simp] theorem trackedEvents_append (c : LogConfig) (is js : List LogInput) :
    trackedEvents c (is ++ js) = trackedEvents c is ++ trackedEvents c js :=
  List.filter_append ..

@[simp] theorem trackedBytes_append (c : LogConfig) (is js : List LogInput) :
    trackedBytes c (is ++ js) = trackedBytes c is + trackedBytes c js := by
  simp [trackedBytes]

theorem trackedEvents_of_tracked {c : LogConfig} {i : LogInput} (h : i.Tracked c) :
    trackedEvents c [i] = [i] := by
  simp [trackedEvents, h]

theorem trackedEvents_of_not_tracked {c : LogConfig} {i : LogInput} (h : ¬ i.Tracked c) :
    trackedEvents c [i] = [] := by
  simp [trackedEvents, h]

/-! ## §2 Events -/

/-- The four figures of bytes and allocations. -/
structure Figures where
  totalAllocs : UInt64
  totalAllocBytes : UInt64
  currentAllocBytes : UInt64
  peakAllocBytes : UInt64

def LogState.figures (l : LogState) : Figures where
  totalAllocs := l.allocinfoTotalAllocs
  totalAllocBytes := l.allocinfoTotalAllocBytes
  currentAllocBytes := l.allocinfoCurrentAllocBytes
  peakAllocBytes := l.allocinfoPeakAllocBytes

section Events

variable (c : LogConfig) (q n : Nat) (cs : Callstack) (l : LogState)

theorem logMalloc_figures (hn : c.huLogMinleak ≤ n) :
    (logMalloc c q n cs l).figures =
      { totalAllocs := l.allocinfoTotalAllocs + 1
        totalAllocBytes := l.allocinfoTotalAllocBytes + UInt64.ofNat n
        currentAllocBytes := l.allocinfoCurrentAllocBytes + UInt64.ofNat n
        peakAllocBytes :=
          if l.allocinfoCurrentAllocBytes + UInt64.ofNat n > l.allocinfoPeakAllocBytes then
            l.allocinfoCurrentAllocBytes + UInt64.ofNat n
          else l.allocinfoPeakAllocBytes } := by
  unfold logMalloc
  simp only [hn, if_true]
  split <;> rfl

theorem logMalloc_figures_small (hn : ¬ c.huLogMinleak ≤ n) :
    (logMalloc c q n cs l).figures = l.figures := by
  rw [logMalloc_small c q n cs l hn]
  split <;> rfl

/-- A free changes the current bytes only, and those only if the pointer is listed. -/
theorem logFree_figures :
    (logFree c q cs l).figures =
      { l.figures with
        currentAllocBytes :=
          match l.allocations.lookup q with
          | some info => l.allocinfoCurrentAllocBytes - UInt64.ofNat info.size
          | none => l.allocinfoCurrentAllocBytes } := by
  have htables : (logFree c q cs l).figures = (logFreeTables c q cs l).figures := by
    rw [logFree_eq]
    split <;> rfl
  rw [htables]
  unfold logFreeTables
  cases l.allocations.lookup q with
  | some info => rfl
  | none =>
    simp only
    split
    · split
      · rw [invalidDealloc_frame]
        rfl
      · rfl
    · rfl

theorem logMalloc_liveBytes (hq : q ∉ l.allocations) :
    (logMalloc c q n cs l).liveBytes =
      if c.huLogMinleak ≤ n then n + l.liveBytes else l.liveBytes := by
  unfold LogState.liveBytes
  rw [logMalloc_allocations]
  split
  · rw [values_insert_of_not_mem hq, List.map_cons, List.sum_cons]
  · rfl

/-- What the table gains by an entry it loses without it. -/
theorem liveBytes_listed {info : HuAllocinfoT} (hq : l.allocations.lookup q = some info) :
    l.liveBytes = info.size + (logFree c q cs l).liveBytes := by
  unfold LogState.liveBytes
  rw [logFree_allocations, ((values_perm_erase hq).map HuAllocinfoT.size).sum_eq, List.map_cons,
    List.sum_cons]

theorem liveBytes_unlisted (hq : q ∉ l.allocations) :
    (logFree c q cs l).liveBytes = l.liveBytes := by
  unfold LogState.liveBytes
  rw [logFree_allocations, erase_of_not_mem hq]

end Events

/-- The update of the peak is a maximum. -/
theorem peak_toNat (a b : UInt64) :
    (if a > b then a else b).toNat = max b.toNat a.toNat := by
  split
  · rename_i hgt
    have hgt : b.toNat < a.toNat := hgt
    omega
  · rename_i hle
    have hle : ¬ b.toNat < a.toNat := hle
    omega

/-- A listed size is part of the sum. -/
theorem LogState.size_le_liveBytes {l : LogState} {q : Nat} {info : HuAllocinfoT}
    (hq : l.allocations.lookup q = some info) : info.size ≤ l.liveBytes := by
  refine List.le_sum_of_mem (List.mem_map.mpr ⟨info, mem_values_of_lookup hq, rfl⟩)

/-! ## §3 Ledger -/

/-- The figures account for the events `is` and for the table. -/
structure Ledger (c : LogConfig) (is : List LogInput) (l : LogState) : Prop where
  /-- the current bytes are those in the table -/
  current : l.allocinfoCurrentAllocBytes.toNat = l.liveBytes
  /-- the tracked allocations, counted in 64 bits -/
  number : l.allocinfoTotalAllocs = UInt64.ofNat (trackedEvents c is).length
  bytes : l.allocinfoTotalAllocBytes.toNat = trackedBytes c is
  /-- the peak is the largest amount any prefix of the run had in the table -/
  peak : IsGreatest {n | ∃ js, js <+: is ∧ n = (exec (logNext c) logStart js).liveBytes}
    l.allocinfoPeakAllocBytes.toNat

/-- The invariant of a run whose tracked sizes add up to less than `2 ^ 64`. -/
structure LedgerInv (c : LogConfig) (is : List LogInput) (l : LogState) : Prop where
  enabled : l.loggingEnabled = true
  reached : l = exec (logNext c) logStart is
  live_le : l.liveBytes ≤ trackedBytes c is
  peak_le : l.allocinfoPeakAllocBytes.toNat ≤ trackedBytes c is
  ledger : Ledger c is l

namespace LedgerInv

variable {c : LogConfig} {is : List LogInput} {l : LogState} {i : LogInput}

theorem start (c : LogConfig) : LedgerInv c [] logStart := by
  refine ⟨rfl, rfl, Nat.le_refl _, Nat.le_refl _, rfl, rfl, rfl, ⟨[], List.prefix_refl [], rfl⟩, ?_⟩
  rintro n ⟨js, hjs, rfl⟩
  rw [List.prefix_nil.mp hjs]
  exact Nat.le_refl _

theorem reached_next (h : LedgerInv c is l) (i : LogInput) :
    logNext c l i = exec (logNext c) logStart (is ++ [i]) := by
  rw [exec_append, ← h.reached]
  rfl

/-- The peak after one more event: the old one, or what the table holds now. -/
theorem peak_next (h : LedgerInv c is l) {peak : Nat}
    (hold : l.allocinfoPeakAllocBytes.toNat ≤ peak) (hnew : (logNext c l i).liveBytes ≤ peak)
    (hone : peak = l.allocinfoPeakAllocBytes.toNat ∨ peak = (logNext c l i).liveBytes) :
    IsGreatest {n | ∃ js, js <+: is ++ [i] ∧ n = (exec (logNext c) logStart js).liveBytes}
      peak := by
  constructor
  · rcases hone with rfl | rfl
    · obtain ⟨js, hjs, heq⟩ := h.ledger.peak.1
      exact ⟨js, hjs.trans (List.prefix_append is [i]), heq⟩
    · exact ⟨is ++ [i], List.prefix_refl _, by rw [h.reached_next i]⟩
  · rintro n ⟨js, hjs, rfl⟩
    rcases List.prefix_concat_iff.mp hjs with rfl | hjs
    · rw [← h.reached_next i]
      exact hnew
    · exact (h.ledger.peak.2 ⟨js, hjs, rfl⟩).trans hold

/-- An event that is no tracked allocation: nothing is added, and the current
bytes stay those of the table. -/
theorem next_untracked (h : LedgerInv c is l) (hi : ¬ i.Tracked c)
    (hfigures : (logNext c l i).figures =
      { l.figures with currentAllocBytes := (logNext c l i).allocinfoCurrentAllocBytes })
    (hcurrent : (logNext c l i).allocinfoCurrentAllocBytes.toNat = (logNext c l i).liveBytes)
    (hle : (logNext c l i).liveBytes ≤ l.liveBytes) : LedgerInv c (is ++ [i]) (logNext c l i) := by
  have htracked : trackedEvents c (is ++ [i]) = trackedEvents c is := by
    rw [trackedEvents_append, trackedEvents_of_not_tracked hi, List.append_nil]
  have hbytes : trackedBytes c (is ++ [i]) = trackedBytes c is := by
    rw [trackedBytes, htracked, trackedBytes]
  have hnumber := congrArg Figures.totalAllocs hfigures
  have htotal := congrArg Figures.totalAllocBytes hfigures
  have hpeak := congrArg Figures.peakAllocBytes hfigures
  simp only [LogState.figures] at hnumber htotal hpeak
  have hlive : l.liveBytes ≤ l.allocinfoPeakAllocBytes.toNat :=
    h.ledger.peak.2 ⟨is, List.prefix_refl is, by rw [← h.reached]⟩
  refine ⟨logNext_enabled h.enabled, h.reached_next i, ?_, ?_, hcurrent, ?_, ?_, ?_⟩
  · rw [hbytes]
    exact hle.trans h.live_le
  · rw [hbytes, hpeak]
    exact h.peak_le
  · rw [htracked, hnumber]
    exact h.ledger.number
  · rw [hbytes, htotal]
    exact h.ledger.bytes
  · rw [hpeak]
    exact h.peak_next (Nat.le_refl _) (hle.trans hlive) (.inl rfl)

/-- A tracked allocation. -/
theorem next_tracked (h : LedgerInv c is l) (hi : i.Tracked c) (hfresh : l.Fresh i)
    (hfit : trackedBytes c (is ++ [i]) < 2 ^ 64) : LedgerInv c (is ++ [i]) (logNext c l i) := by
  obtain ⟨hevent, hmin⟩ := hi
  have hnext : logNext c l i = logMalloc c i.ptr i.size i.callstack l :=
    logNext_malloc h.enabled hevent
  have htracked : trackedEvents c (is ++ [i]) = trackedEvents c is ++ [i] := by
    rw [trackedEvents_append, trackedEvents_of_tracked ⟨hevent, hmin⟩]
  have hbytes : trackedBytes c (is ++ [i]) = trackedBytes c is + i.size := by
    rw [trackedBytes, htracked, List.map_append, List.sum_append]
    rfl
  have hlive : (logNext c l i).liveBytes = i.size + l.liveBytes := by
    rw [hnext, logMalloc_liveBytes c i.ptr i.size i.callstack l (hfresh hevent), if_pos hmin]
  have hfigures := logMalloc_figures c i.ptr i.size i.callstack l hmin
  rw [← hnext] at hfigures
  have hnumber := congrArg Figures.totalAllocs hfigures
  have htotal := congrArg Figures.totalAllocBytes hfigures
  have hcurrent := congrArg Figures.currentAllocBytes hfigures
  have hpeak := congrArg Figures.peakAllocBytes hfigures
  simp only [LogState.figures] at hnumber htotal hcurrent hpeak
  rw [hbytes] at hfit
  have hsize : (UInt64.ofNat i.size).toNat = i.size := UInt64.toNat_ofNat_of_lt' (by
    have : i.size < 2 ^ 64 := by omega
    exact this)
  have hlive_le := h.live_le
  have hsum : (l.allocinfoCurrentAllocBytes + UInt64.ofNat i.size).toNat =
      i.size + l.liveBytes := by
    rw [UInt64.toNat_add, hsize, h.ledger.current, Nat.add_comm, Nat.mod_eq_of_lt (by omega)]
  have hpeak' : (logNext c l i).allocinfoPeakAllocBytes.toNat =
      max l.allocinfoPeakAllocBytes.toNat (i.size + l.liveBytes) := by
    rw [hpeak, peak_toNat, hsum]
  have hpeak_le := h.peak_le
  refine ⟨logNext_enabled h.enabled, h.reached_next i, ?_, ?_, ?_, ?_, ?_, ?_⟩
  · rw [hlive, hbytes]
    omega
  · rw [hpeak', hbytes]
    omega
  · rw [hcurrent, hlive, hsum]
  · rw [hnumber, htracked, h.ledger.number, List.length_append]
    simp
  · rw [htotal, hbytes, UInt64.toNat_add, hsize, h.ledger.bytes, Nat.mod_eq_of_lt (by omega)]
  · rw [hpeak']
    refine h.peak_next (Nat.le_max_left _ _) ?_ ?_
    · rw [hlive]
      exact Nat.le_max_right _ _
    · rw [hlive]
      omega

/-- An allocation below the minimum size. -/
theorem next_small (h : LedgerInv c is l) (hevent : i.event = .malloc)
    (hsmall : ¬ c.huLogMinleak ≤ i.size) (hfresh : l.Fresh i) :
    LedgerInv c (is ++ [i]) (logNext c l i) := by
  have hnext : logNext c l i = logMalloc c i.ptr i.size i.callstack l :=
    logNext_malloc h.enabled hevent
  have hfigures := logMalloc_figures_small c i.ptr i.size i.callstack l hsmall
  have hlive : (logNext c l i).liveBytes = l.liveBytes := by
    rw [hnext, logMalloc_liveBytes c i.ptr i.size i.callstack l (hfresh hevent), if_neg hsmall]
  rw [← hnext] at hfigures
  have hcurrent : (logNext c l i).allocinfoCurrentAllocBytes = l.allocinfoCurrentAllocBytes :=
    congrArg Figures.currentAllocBytes hfigures
  refine h.next_untracked (fun hi => hsmall hi.2) ?_ ?_ hlive.le
  · rw [hfigures, hcurrent]
    rfl
  · rw [hcurrent, hlive, h.ledger.current]

/-- A free takes off what its pointer is listed with. -/
theorem next_free (h : LedgerInv c is l) (hevent : i.event = .free) :
    LedgerInv c (is ++ [i]) (logNext c l i) := by
  have hi : ¬ i.Tracked c := by
    rintro ⟨hmalloc, -⟩
    rw [hevent] at hmalloc
    cases hmalloc
  have hnext : logNext c l i = logFree c i.ptr i.callstack l := logNext_free h.enabled hevent
  have hfigures := logFree_figures c i.ptr i.callstack l
  rw [← hnext] at hfigures
  have hcurrent := congrArg Figures.currentAllocBytes hfigures
  simp only [LogState.figures] at hcurrent
  cases hlook : l.allocations.lookup i.ptr with
  | none =>
    have hlive := liveBytes_unlisted c i.ptr i.callstack l (not_mem_of_lookup_none hlook)
    rw [← hnext] at hlive
    rw [hlook] at hcurrent
    refine h.next_untracked hi (by rw [hfigures, hcurrent, hlook]) ?_ hlive.le
    rw [hcurrent, hlive, h.ledger.current]
  | some info =>
    have hlive := liveBytes_listed c i.ptr i.callstack l hlook
    rw [← hnext] at hlive
    rw [hlook] at hcurrent
    have hcovered : info.size ≤ l.allocinfoCurrentAllocBytes.toNat := by
      rw [h.ledger.current]
      exact LogState.size_le_liveBytes hlook
    have hsize : (UInt64.ofNat info.size).toNat = info.size :=
      UInt64.toNat_ofNat_of_lt' (hcovered.trans_lt (UInt64.toNat_lt _))
    have hle : UInt64.ofNat info.size ≤ l.allocinfoCurrentAllocBytes := by
      rw [UInt64.le_iff_toNat_le, hsize]
      exact hcovered
    refine h.next_untracked hi (by rw [hfigures, hcurrent, hlook]) ?_ (by omega)
    rw [hcurrent, UInt64.toNat_sub_of_le _ _ hle, hsize, h.ledger.current]
    omega

/-- **One event keeps the ledger.** -/
theorem next (h : LedgerInv c is l) (hfresh : l.Fresh i)
    (hfit : trackedBytes c (is ++ [i]) < 2 ^ 64) : LedgerInv c (is ++ [i]) (logNext c l i) := by
  cases hevent : i.event with
  | malloc =>
    by_cases hmin : c.huLogMinleak ≤ i.size
    · exact h.next_tracked ⟨hevent, hmin⟩ hfresh hfit
    · exact h.next_small hevent hmin hfresh
  | free => exact h.next_free hevent

/-- **Every run keeps the ledger.** -/
theorem of_run (hrun : Along (logNext c) LogState.Fresh logStart is)
    (hfit : trackedBytes c is < 2 ^ 64) :
    LedgerInv c is (exec (logNext c) logStart is) := by
  have hstep : ∀ js l i, (trackedBytes c js < 2 ^ 64 → LedgerInv c js l) → l.Fresh i →
      trackedBytes c (js ++ [i]) < 2 ^ 64 → LedgerInv c (js ++ [i]) (logNext c l i) := by
    intro js l i hjs hfresh hlt
    refine (hjs ?_).next hfresh hlt
    rw [trackedBytes_append] at hlt
    omega
  have hall : trackedBytes c is < 2 ^ 64 → LedgerInv c is (exec (logNext c) logStart is) :=
    Along.history hstep is [] logStart (fun _ => start c) hrun
  exact hall hfit

end LedgerInv

/-! ## §4 Runs -/

/-- The bytes in use that a summary prints. -/
theorem summaryOf_inUse (c : LogConfig) (ondemand evicted : Bool) (order : List HuAllocinfoT)
    (l : LogState) : (summaryOf c ondemand evicted order l).inUseBytes =
      UInt64.ofNat (order.map HuAllocinfoT.size).sum := by
  have hfold : ∀ (order : List HuAllocinfoT) (n : Nat),
      order.foldl (fun total it => total + UInt64.ofNat it.size) (UInt64.ofNat n) =
        UInt64.ofNat (n + (order.map HuAllocinfoT.size).sum) := by
    intro order
    induction order with
    | nil => intro n; rfl
    | cons a rest ih =>
      intro n
      rw [List.foldl_cons, ← UInt64.ofNat_add, ih, List.map_cons, List.sum_cons, Nat.add_assoc]
  have hzero := hfold order 0
  rwa [Nat.zero_add] at hzero

/-- Every order of the table gives the same figures in use. -/
theorem summaryOf_inUse_of_perm (c : LogConfig) (ondemand evicted : Bool)
    {order : List HuAllocinfoT} {l : LogState} (hperm : order.Perm (values l.allocations)) :
    (summaryOf c ondemand evicted order l).inUseBytes = UInt64.ofNat l.liveBytes ∧
      (summaryOf c ondemand evicted order l).inUseBlocks =
        UInt64.ofNat (values l.allocations).length := by
  rw [summaryOf_inUse, (hperm.map HuAllocinfoT.size).sum_eq]
  exact ⟨rfl, congrArg UInt64.ofNat hperm.length_eq⟩

/-- **The byte ledger**, in every state of every run of `log_event` in which no
allocation event names a listed pointer: the ledger holds, no free takes off
more than there is, and every summary prints in-use bytes that are at most the
peak, and a peak that is at most the bytes allocated. -/
theorem byte_ledger (c : LogConfig) (is : List LogInput)
    (hrun : Along (logNext c) LogState.Fresh logStart is) (hfit : trackedBytes c is < 2 ^ 64) :
    let l := exec (logNext c) logStart is
    Ledger c is l ∧
    (∀ q info, l.allocations.lookup q = some info →
      info.size ≤ l.allocinfoCurrentAllocBytes.toNat) ∧
    ∀ ondemand evicted order, order.Perm (values l.allocations) →
      (summaryOf c ondemand evicted order l).inUseBytes.toNat = l.liveBytes ∧
      (summaryOf c ondemand evicted order l).inUseBytes ≤
        (summaryOf c ondemand evicted order l).peakAllocBytes ∧
      (summaryOf c ondemand evicted order l).peakAllocBytes ≤
        (summaryOf c ondemand evicted order l).totalAllocBytes := by
  intro l
  have h : LedgerInv c is l := LedgerInv.of_run hrun hfit
  refine ⟨h.ledger, ?_, ?_⟩
  · intro q info hq
    rw [h.ledger.current]
    exact LogState.size_le_liveBytes hq
  · intro ondemand evicted order hperm
    have hlive : l.liveBytes < 2 ^ 64 := h.live_le.trans_lt hfit
    have huse : (summaryOf c ondemand evicted order l).inUseBytes.toNat = l.liveBytes := by
      rw [(summaryOf_inUse_of_perm c ondemand evicted hperm).1]
      exact UInt64.toNat_ofNat_of_lt' hlive
    refine ⟨huse, ?_, ?_⟩
    · rw [UInt64.le_iff_toNat_le, huse]
      exact h.ledger.peak.2 ⟨is, List.prefix_refl is, by rw [← h.reached]⟩
    · rw [UInt64.le_iff_toNat_le]
      show l.allocinfoPeakAllocBytes.toNat ≤ l.allocinfoTotalAllocBytes.toNat
      rw [h.ledger.bytes]
      exact h.peak_le

/-- No tool, and every size is tracked. -/
def plainLog : LogConfig where
  huLogFree := false
  huLogMinleak := 0
  huUseafterfree := false
  huLeak := false
  huLogRepeat := false
  huPageSize := 4096
  logWritable := true
  objfile := fun _ => ""

/-- Two blocks, the second one after the first was freed twice: the peak stays. -/
theorem byte_ledger_twice :
    let is : List LogInput := [⟨.malloc, 64, 8, [1, 2]⟩, ⟨.free, 64, 0, [1, 3]⟩,
      ⟨.free, 64, 0, [1, 3]⟩, ⟨.malloc, 128, 3, [1, 2]⟩]
    (exec (logNext plainLog) logStart is).allocinfoCurrentAllocBytes.toNat = 3 ∧
      IsGreatest {n | ∃ js, js <+: is ∧ n = (exec (logNext plainLog) logStart js).liveBytes} 8 := by
  intro is
  have h := byte_ledger plainLog is (by decide) (by decide)
  exact ⟨h.1.current, h.1.peak⟩

/-- `n` empty blocks at one address, each freed before the next. -/
def emptyBlocks (n : Nat) : List LogInput :=
  (List.replicate n [⟨.malloc, 1, 0, []⟩, ⟨.free, 1, 0, []⟩]).flatten

theorem emptyBlocks_succ (n : Nat) :
    emptyBlocks (n + 1) = [⟨.malloc, 1, 0, []⟩, ⟨.free, 1, 0, []⟩] ++ emptyBlocks n := rfl

theorem emptyBlocks_fresh (n : Nat) : ∀ l : LogState, l.loggingEnabled = true →
    1 ∉ l.allocations → Along (logNext plainLog) LogState.Fresh l (emptyBlocks n) := by
  induction n with
  | zero => intro l _ _; exact trivial
  | succ n ih =>
    intro l hon hfresh
    have halloc : logNext plainLog l ⟨.malloc, 1, 0, []⟩ = logMalloc plainLog 1 0 [] l :=
      logNext_malloc hon rfl
    have hfree : logNext plainLog (logMalloc plainLog 1 0 [] l) ⟨.free, 1, 0, []⟩ =
        logFree plainLog 1 [] (logMalloc plainLog 1 0 [] l) :=
      logNext_free (by rw [logMalloc_enabled, hon]) rfl
    rw [emptyBlocks_succ]
    refine ⟨fun _ => hfresh, fun h => absurd h (by decide), ?_⟩
    rw [halloc, hfree]
    refine ih _ (by rw [logFree_enabled, logMalloc_enabled, hon]) ?_
    rw [logFree_allocations, AList.mem_erase]
    exact fun h => h.1 rfl

theorem emptyBlocks_tracked (n : Nat) : (trackedEvents plainLog (emptyBlocks n)).length = n ∧
    trackedBytes plainLog (emptyBlocks n) = 0 := by
  induction n with
  | zero => exact ⟨rfl, rfl⟩
  | succ n ih =>
    obtain ⟨hnumber, hbytes⟩ := ih
    rw [emptyBlocks_succ, trackedEvents_append, trackedBytes_append, List.length_append, hnumber,
      hbytes]
    exact ⟨Nat.add_comm 1 n, rfl⟩

/-- After `2 ^ 64` empty blocks the count of allocations is back at zero, though
no byte was ever allocated. -/
theorem empty_blocks_wrap :
    Along (logNext plainLog) LogState.Fresh logStart (emptyBlocks (2 ^ 64)) ∧
      trackedBytes plainLog (emptyBlocks (2 ^ 64)) < 2 ^ 64 ∧
      (exec (logNext plainLog) logStart (emptyBlocks (2 ^ 64))).allocinfoTotalAllocs.toNat ≠
        (trackedEvents plainLog (emptyBlocks (2 ^ 64))).length := by
  obtain ⟨hnumber, hbytes⟩ := emptyBlocks_tracked (2 ^ 64)
  have hrun := emptyBlocks_fresh (2 ^ 64) logStart rfl (AList.notMem_empty _)
  have hfit : trackedBytes plainLog (emptyBlocks (2 ^ 64)) < 2 ^ 64 := by
    rw [hbytes]
    exact Nat.two_pow_pos 64
  refine ⟨hrun, hfit, ?_⟩
  rw [(LedgerInv.of_run hrun hfit).ledger.number, hnumber]
  decide

end Heapusage
