/-
Heapusage.Client.Balance — allocations, frees and blocks in use.

§1 Events    — what an event does to the two totals and to the number of
               entries of `allocations`.
§2 Addresses — a tracked block gets an address that is not listed, unless a
               pass-through block is resized to one that is (`CallFacts`).
§3 Runs      — a summary balances exactly as long as every block given up is
               listed (`heap_summary_balances_iff`).

Sizes that wrap are included, so the C library may put a pass-through block at
the user pointer of a fenced one.
-/
import Heapusage.Client.Fencing
import Heapusage.Log.Ledger

namespace Heapusage

open Arenas Runs Tables

/-! ## §1 Events -/

/-- In every summary, 'N allocs, M frees' and 'B blocks' have `N - M = B`. -/
def LogState.Balances (c : LogConfig) (l : LogState) : Prop :=
  ∀ ondemand evicted order, order.Perm (values l.allocations) →
    let figures := summaryOf c ondemand evicted order l
    figures.totalAllocs - figures.totalFrees = figures.inUseBlocks

/-- The number of entries of `allocations`, as it is printed. -/
def LogState.blocks (l : LogState) : UInt64 := UInt64.ofNat (values l.allocations).length

/-- How far the three figures are from balancing. -/
def LogState.excess (l : LogState) : UInt64 :=
  l.allocinfoTotalAllocs - l.allocinfoTotalFrees - l.blocks

theorem LogState.balances_iff {c : LogConfig} {l : LogState} :
    l.Balances c ↔ l.excess = 0 := by
  have hsub : l.allocinfoTotalAllocs - l.allocinfoTotalFrees = l.blocks ↔ l.excess = 0 := by
    unfold LogState.excess
    grind
  rw [← hsub]
  constructor
  · intro h
    exact h false false _ (List.Perm.refl _)
  · intro h ondemand evicted order hperm
    simp only [summaryOf, hperm.length_eq]
    exact h

section Events

variable (c : LogConfig) (q n : Nat) (cs : Callstack) (l : LogState)

theorem logFree_blocks :
    (logFree c q cs l).blocks = if q ∈ l.allocations then l.blocks - 1 else l.blocks := by
  unfold LogState.blocks
  rw [logFree_allocations]
  split
  · rename_i hq
    rw [← length_values_erase hq, UInt64.ofNat_add]
    grind
  · rename_i hq
    rw [erase_of_not_mem hq]

theorem logMalloc_blocks (hn : c.huLogMinleak ≤ n) :
    (logMalloc c q n cs l).blocks = if q ∈ l.allocations then l.blocks else l.blocks + 1 := by
  unfold LogState.blocks
  rw [logMalloc_allocations, if_pos hn, length_values_insert]
  split
  · rfl
  · rw [UInt64.ofNat_add]
    rfl

/-- A free event counts, whether its pointer is listed or not. -/
theorem logFree_excess (hret : (logFree c q cs l).uncaught = false) :
    (logFree c q cs l).excess = if q ∈ l.allocations then l.excess else l.excess - 1 := by
  have hallocs : (logFree c q cs l).allocinfoTotalAllocs = l.allocinfoTotalAllocs :=
    congrArg Figures.totalAllocs (logFree_figures c q cs l)
  unfold LogState.excess
  rw [hallocs, logFree_totalFrees c q cs l hret, logFree_blocks]
  split <;> grind

/-- A tracked allocation event counts, whether its pointer is listed or not. -/
theorem logMalloc_excess (hn : c.huLogMinleak ≤ n) :
    (logMalloc c q n cs l).excess = if q ∈ l.allocations then l.excess + 1 else l.excess := by
  unfold LogState.excess
  rw [logMalloc_totalAllocs c q n cs l hn, logMalloc_totalFrees, logMalloc_blocks c q n cs l hn]
  split <;> grind

theorem logMalloc_excess_small (hn : ¬ c.huLogMinleak ≤ n) :
    (logMalloc c q n cs l).excess = l.excess := by
  rw [logMalloc_small c q n cs l hn]
  split <;> rfl

end Events

section Calls

variable {c : LogConfig} {e : CallEnv} {q : Nat} {call : Call} {l : LogState}

/-- The call gives up a pointer that is not listed. -/
def Call.FreesUnlisted (l : LogState) (call : Call) : Prop :=
  ∃ p, call.frees = some p ∧ p ∉ l.allocations

theorem freeEvent_excess (hon : l.loggingEnabled = true)
    (hret : (freeEvent c e call l).uncaught = false) :
    (call.FreesUnlisted l → (freeEvent c e call l).excess = l.excess - 1) ∧
    (¬ call.FreesUnlisted l → (freeEvent c e call l).excess = l.excess) := by
  cases hfr : call.frees with
  | none =>
    rw [freeEvent_of_none _ _ _ _ hfr]
    simp [Call.FreesUnlisted, hfr]
  | some p =>
    rw [freeEvent_of_some _ _ _ _ hfr hon] at hret ⊢
    rw [logFree_excess _ _ _ _ hret]
    constructor
    · intro hun
      exact if_neg (by simpa [Call.FreesUnlisted, hfr] using hun)
    · intro hlisted
      exact if_pos (by simpa [Call.FreesUnlisted, hfr] using hlisted)

theorem allocEvent_uncaught : (allocEvent c e q call l).uncaught = l.uncaught := by
  unfold allocEvent logEvent
  split
  · split
    · exact logMalloc_uncaught ..
    · rfl
  · rfl

/-- The call asks for a block of at least the minimum size. -/
def Call.Analysed (min : Nat) (call : Call) : Prop := 0 < call.requested ∧ min ≤ call.requested

variable (hsize : call.allocs = if 0 < call.requested then some call.requested else none)
include hsize

theorem allocEvent_excess (hon : l.loggingEnabled = true) :
    (call.Analysed c.huLogMinleak ∧ q ∈ l.allocations →
      (allocEvent c e q call l).excess = l.excess + 1) ∧
    (¬ (call.Analysed c.huLogMinleak ∧ q ∈ l.allocations) →
      (allocEvent c e q call l).excess = l.excess) := by
  by_cases hpos : 0 < call.requested
  · rw [if_pos hpos] at hsize
    rw [allocEvent_of_some _ _ _ _ _ hsize hon]
    by_cases hmin : c.huLogMinleak ≤ call.requested
    · rw [logMalloc_excess _ _ _ _ _ hmin]
      simp [Call.Analysed, hpos, hmin]
    · rw [logMalloc_excess_small _ _ _ _ _ hmin]
      simp [Call.Analysed, hmin]
  · rw [if_neg hpos] at hsize
    rw [allocEvent_of_none _ _ _ _ _ hsize]
    simp [Call.Analysed, hpos]

theorem mem_allocEvent (hon : l.loggingEnabled = true) (k : Nat) :
    k ∈ (allocEvent c e q call l).allocations ↔
      k ∈ l.allocations ∨ (k = q ∧ call.Analysed c.huLogMinleak) := by
  by_cases hpos : 0 < call.requested
  · rw [if_pos hpos] at hsize
    rw [allocEvent_of_some _ _ _ _ _ hsize hon, logMalloc_allocations]
    by_cases hmin : c.huLogMinleak ≤ call.requested
    · simp [Call.Analysed, hpos, hmin, or_comm]
    · simp [Call.Analysed, hmin]
  · rw [if_neg hpos] at hsize
    rw [allocEvent_of_none _ _ _ _ _ hsize]
    simp [Call.Analysed, hpos]

omit hsize

theorem mem_freeEvent (hon : l.loggingEnabled = true) (h0 : 0 ∉ l.allocations) (k : Nat) :
    k ∈ (freeEvent c e call l).allocations ↔ k ∈ l.allocations ∧ k ≠ call.argument := by
  cases hfr : call.frees with
  | none =>
    rw [freeEvent_of_none _ _ _ _ hfr, Call.frees_eq_none hfr]
    refine ⟨fun hk => ⟨hk, ?_⟩, And.left⟩
    rintro rfl
    exact h0 hk
  | some p =>
    rw [freeEvent_of_some _ _ _ _ hfr hon, logFree_allocations, AList.mem_erase,
      Call.frees_eq_some hfr]
    exact and_comm

end Calls

/-! ## §2 Addresses -/

/-- A call of the C library that returned `q`. -/
structure Passes (ans : SysAns) (call : Call) (q : Nat) (s s' : HuState) : Prop where
  answer : q ≠ 0 → q = ans.ptr
  fresh : ∀ k, s.Based k → k ≠ call.argument → k ≠ q
  kept : ∀ k, s.Based k → k ≠ call.argument → s'.Based k
  based : q ≠ 0 → s'.Based q

section Library

variable {ans : SysAns} {call : Call} {s s' : HuState}

/-- A region handed out, after the argument was given up. -/
theorem Passes.granted {A : Arena Origin (2 ^ 64)} {n : Nat}
    (hsub : ∀ r, r ∈ s.sys.arena.blocks → r.base ≠ call.argument → r ∈ A.blocks)
    (hr : A.Admits ⟨ans.ptr, n, .malloc⟩) (harena : s'.sys.arena = A.add _ hr) :
    Passes ans call ans.ptr s s' := by
  refine ⟨fun _ => rfl, ?_, ?_, fun _ => ⟨⟨ans.ptr, n, .malloc⟩, by simp [harena], rfl⟩⟩
  · rintro k ⟨r, hlive, rfl⟩ hne
    exact (hr.2.2 r (hsub r hlive hne)).base_ne.symm
  · rintro k ⟨r, hlive, rfl⟩ hne
    exact ⟨r, by simp [harena, hsub r hlive hne], rfl⟩

/-- Null returned, and no region but the argument's given up. -/
theorem Passes.null
    (hsub : ∀ r, r ∈ s.sys.arena.blocks → r.base ≠ call.argument → r ∈ s'.sys.arena.blocks) :
    Passes ans call 0 s s' := by
  refine ⟨fun h => absurd rfl h, ?_, ?_, fun h => absurd rfl h⟩
  · rintro k ⟨r, hlive, rfl⟩ _
    exact s.sys.arena.base_ne_zero hlive
  · rintro k ⟨r, hlive, rfl⟩ hne
    exact ⟨r, hsub r hlive hne, rfl⟩

theorem libcMalloc_passes (n : Nat) :
    Passes ans call (s.libcMalloc ans n).2 s (s.libcMalloc ans n).1 := by
  unfold HuState.libcMalloc
  rcases SysHeap.libcMalloc_cases ans s.sys n with hm | ⟨hr, hm⟩
  · simp only [hm]
    exact .null fun r hlive _ => hlive
  · simp only [hm]
    exact .granted (fun r hlive _ => hlive) hr rfl

/-- What a call of the C library returns, and what it leaves. -/
theorem libcCall_passes (ans : SysAns) (call : Call) (s : HuState) :
    Passes ans call (libcCall ans call s).2 s (libcCall ans call s).1 := by
  cases call with
  | malloc size => exact libcMalloc_passes size
  | free p =>
    refine .null fun r hlive hne => ?_
    show r ∈ (s.sys.libcFree p).arena.blocks
    unfold SysHeap.libcFree
    split
    · exact hlive
    · exact (Arena.mem_release _ _ _).mpr ⟨hlive, hne⟩
  | calloc nmemb size =>
    simp only [libcCall, HuState.libcCalloc]
    rcases SysHeap.libcCalloc_cases ans s.sys nmemb size with hm | ⟨-, hr, hm⟩
    · simp only [hm]
      exact .null fun r hlive _ => hlive
    · simp only [hm]
      exact .granted (fun r hlive _ => hlive) hr rfl
  | realloc p n =>
    by_cases hp : p = 0
    · have heq : libcCall ans (.realloc p n) s = s.libcMalloc ans n := by
        simp [libcCall, HuState.libcRealloc, HuState.libcMalloc, SysHeap.libcRealloc, hp]
      rw [heq]
      exact libcMalloc_passes n
    simp only [libcCall, HuState.libcRealloc]
    have hleft : ∀ r, r ∈ s.sys.arena.blocks → r.base ≠ p →
        r ∈ (s.sys.vacated p n).arena.blocks :=
      fun r hlive hne => (Arena.mem_release _ _ _).mpr ⟨hlive, hne⟩
    cases hfind : s.sys.arena.find p with
    | none =>
      simp only [SysHeap.libcRealloc_undefined ans s.sys hp hfind]
      exact .null fun r hlive _ => hlive
    | some r =>
      rcases SysHeap.libcRealloc_cases ans s.sys hp hfind n with ⟨-, hm⟩ | ⟨-, hm⟩ | ⟨-, hn, hm⟩
      · simp only [hm]
        exact .null hleft
      · simp only [hm]
        exact .null fun r hlive _ => hlive
      · simp only [hm]
        exact .granted hleft hn rfl

end Library

/-! ## §3 Runs -/

namespace Sizing

/-- What is passed on: null or an address the program holds, and to `free` also the
address of a block that no call of the run returned. -/
def Gives (σ : Sizing) : Call → Prop
  | .free p => (p = 0 ∨ p ∈ σ.sizes) ∨ σ.tool.Foreign p
  | call => call.argument = 0 ∨ call.argument ∈ σ.sizes

instance (σ : Sizing) : ∀ call : Call, Decidable (σ.Gives call)
  | .free _ => inferInstanceAs (Decidable ((_ ∨ _) ∨ _))
  | .malloc _ => inferInstanceAs (Decidable (_ ∨ _))
  | .calloc _ _ => inferInstanceAs (Decidable (_ ∨ _))
  | .realloc _ _ => inferInstanceAs (Decidable (_ ∨ _))

/-- The program, or the C library at the end, makes a call that does not fail and
returns. -/
structure Completes (c : HuConfig) (σ : Sizing) (i : Input) : Prop where
  gives : σ.Gives i.call
  succeeds : ¬ i.call.Failed (σ.result c i).2
  returns : (σ.next c i).tool.log.uncaught = false

instance (c : HuConfig) (σ : Sizing) (i : Input) : Decidable (σ.Completes c i) :=
  decidable_of_iff
    (σ.Gives i.call ∧ ¬ i.call.Failed (σ.result c i).2 ∧
      (σ.next c i).tool.log.uncaught = false)
    ⟨fun ⟨h1, h2, h3⟩ => ⟨h1, h2, h3⟩, fun h => ⟨h.1, h.2, h.3⟩⟩

end Sizing

/-- The pointer of the free event is listed. Or the call resizes a block that is
not to an analysed size and the system offers an address that is listed, which
takes a size that wraps. -/
def HuState.FreesListed (c : HuConfig) (s : HuState) (i : Input) : Prop :=
  i.call.FreesUnlisted s.log → i.call.Analysed c.huMinsize ∧ i.env.ans.ptr ∈ s.log.allocations

instance (l : LogState) (call : Call) : Decidable (call.FreesUnlisted l) :=
  decidable_of_iff (∃ p ∈ call.frees, p ∉ l.allocations) Iff.rfl

instance (c : HuConfig) (s : HuState) (i : Input) : Decidable (s.FreesListed c i) :=
  inferInstanceAs (Decidable (_ → (_ ∧ _) ∧ _))

/-- The invariant of a run. With fences the listed addresses are those of the
fenced blocks, without they are those of live regions. -/
structure BalanceInv (c : HuConfig) (σ : Sizing) : Prop where
  configured : σ.tool.Configured c
  returned : σ.tool.log.uncaught = false
  held : c.huEnableHumalloc = true → SizingInv c σ
  fenced : c.huEnableHumalloc = true →
    ∀ p, p ∈ σ.tool.log.allocations ↔ p ∈ σ.tool.mal.huActiveAllocs
  plain : c.huEnableHumalloc = false → ∀ p, p ∈ σ.tool.log.allocations → σ.tool.Based p
  balances : σ.tool.log.Balances c.logConfig

namespace BalanceInv

variable {c : HuConfig} {σ : Sizing} {i : Input}

theorem init (c : HuConfig) : BalanceInv c (.init c) := by
  have hempty : ∀ p, p ∉ (huInit c).log.allocations := fun p => AList.notMem_empty p
  refine ⟨⟨huInit_inited c, fun _ => huInit_active c, rfl⟩, rfl,
    fun hon => .init hon, ?_, fun _ p hp => absurd hp (hempty p), ?_⟩
  · intro _ p
    rw [Sizing.init, huInit_active]
    exact ⟨fun hp => absurd hp (hempty p), fun hp => absurd hp (AList.notMem_empty p)⟩
  · rw [LogState.balances_iff]
    simp [LogState.excess, LogState.blocks, Sizing.init, huInit, logEnable, logInit]

/-- Null is not listed. -/
theorem null (h : BalanceInv c σ) : 0 ∉ σ.tool.log.allocations := by
  intro hmem
  cases hon : c.huEnableHumalloc with
  | true => exact (h.held hon).frames.null ((h.fenced hon 0).mp hmem)
  | false =>
    obtain ⟨r, hlive, hbase⟩ := h.plain hon 0 hmem
    exact σ.tool.sys.arena.base_ne_zero hlive hbase

theorem result_eq : (σ.result c i).2 = (allocHalf c i.env.ans i.call σ.tool).2 := by
  rw [Sizing.result, tracked_eq]

theorem next_log : (σ.next c i).tool.log = logEvents c.logConfig i.env
    (σ.result c i).2 i.call (allocHalf c i.env.ans i.call σ.tool).1.log := by
  rw [Sizing.next, Sizing.result, tracked_eq, logHalf_log]

/-- The allocation event carries the size asked for. -/
theorem sized (hi : σ.Completes c i) :
    i.call.allocs = if 0 < i.call.requested then some i.call.requested else none := by
  refine Call.allocs_eq fun nmemb size hcall => ?_
  have hok := hi.succeeds
  rw [result_eq, hcall] at hok
  by_cases hzero : nmemb * size = 0
  · omega
  · exact allocHalf_calloc_fits c i.env.ans σ.tool fun hq => hok ⟨hzero, hq⟩

/-- A call that asks for bytes returns a pointer. -/
theorem result_ne_zero (hi : σ.Completes c i) (hpos : 0 < i.call.requested) :
    (σ.result c i).2 ≠ 0 := fun hq => hi.succeeds ⟨hpos.ne', hq⟩

/-- A call that asks for bytes is passed null or a block of the program. -/
theorem succeeds_of_analysed (hi : σ.Completes c i) (hana : i.call.Analysed c.huMinsize) :
    σ.Succeeds c i := by
  obtain ⟨hgives, hok, -⟩ := hi
  refine ⟨?_, hok⟩
  cases hcall : i.call with
  | free p => exact absurd hana.1 (by simp [hcall, Call.requested])
  | malloc size => exact .inl rfl
  | calloc nmemb size => exact .inl rfl
  | realloc p n =>
    rw [hcall] at hgives
    exact hgives

/-- The address of a block that no call returned is not listed. -/
theorem unlisted_of_foreign (h : BalanceInv c σ) {p : Nat} (hp : σ.tool.Foreign p) :
    p ∉ σ.tool.log.allocations := by
  intro hmem
  cases hon : c.huEnableHumalloc with
  | true =>
    exact hp.2 ((h.held hon).frames.recorded.addr p ((h.fenced hon p).mp hmem))
  | false => exact hp.1 (h.plain hon p hmem)

/-- A call that gives up a listed pointer is passed null or a block of the program. -/
theorem succeeds_of_listed (h : BalanceInv c σ) (hi : σ.Completes c i)
    (hcond : σ.tool.FreesListed c i) : σ.Succeeds c i := by
  obtain ⟨hgives, hok, -⟩ := hi
  refine ⟨?_, hok⟩
  cases hcall : i.call with
  | free p =>
    rw [hcall] at hgives
    refine hgives.elim id fun hforeign => ?_
    have hun : i.call.FreesUnlisted σ.tool.log :=
      ⟨p, by rw [hcall]; rfl, h.unlisted_of_foreign hforeign⟩
    exact absurd (hcond hun).1.1 (by simp [hcall, Call.requested])
  | malloc size => exact .inl rfl
  | calloc nmemb size => exact .inl rfl
  | realloc p n =>
    rw [hcall] at hgives
    exact hgives

/-- The call seen from the C library. -/
theorem passes (hoff : c.huEnableHumalloc = false) :
    Passes i.env.ans i.call (σ.result c i).2 σ.tool (σ.next c i).tool := by
  have hp := libcCall_passes i.env.ans i.call σ.tool
  have hhalf : allocHalf c i.env.ans i.call σ.tool = libcCall i.env.ans i.call σ.tool := by
    rw [allocHalf, hoff, if_neg Bool.false_ne_true]
  have harena : (σ.next c i).tool.sys = (libcCall i.env.ans i.call σ.tool).1.sys := by
    rw [Sizing.next, Sizing.result, tracked_eq, logHalf_sys, hhalf]
  rw [result_eq, hhalf]
  have hbased : ∀ k, (σ.next c i).tool.Based k ↔ (libcCall i.env.ans i.call σ.tool).1.Based k := by
    intro k
    rw [HuState.Based, harena, HuState.Based]
  exact ⟨hp.answer, hp.fresh, fun k hk hne => (hbased k).mpr (hp.kept k hk hne),
    fun hq => (hbased _).mpr (hp.based hq)⟩

/-- A block that is not fenced gets the address the system offers when it is
resized. -/
theorem unlisted_answer (h : BalanceInv c σ) (hi : σ.Completes c i) (hpos : 0 < i.call.requested)
    (hun : i.call.FreesUnlisted σ.tool.log) (hne : i.call.argument ≠ 0) :
    (σ.result c i).2 = i.env.ans.ptr := by
  have hq := result_ne_zero hi hpos
  cases hon : c.huEnableHumalloc with
  | true =>
    obtain ⟨p, hfrees, hp⟩ := hun
    have hact : i.call.argument ∉ σ.tool.mal.huActiveAllocs := by
      rw [Call.frees_eq_some hfrees, ← h.fenced hon p]
      exact hp
    rw [Sizing.result, fenced_result hon] at hq ⊢
    exact (huCall_answer c.mallocConfig c.logConfig i.env.ans (h.held hon).frames.inited hpos hne
      hact).resolve_left hq
  | false => exact (passes hon).answer hq

/-- A block of an analysed size that is not fenced comes from a block that is not
listed. -/
theorem unlisted_of_passed (h : BalanceInv c σ) (hon : c.huEnableHumalloc = true)
    (hana : i.call.Analysed c.huMinsize) (hno : ¬ Enters c.mallocConfig σ.tool i.call) :
    i.call.argument ≠ 0 ∧ i.call.FreesUnlisted σ.tool.log := by
  have harg : i.call.argument ≠ 0 := fun h0 => hno ⟨hana.1, hana.2, .inl h0⟩
  refine ⟨harg, ?_⟩
  cases hfr : i.call.frees with
  | none => exact absurd (Call.frees_eq_none hfr) harg
  | some p =>
    refine ⟨p, hfr, ?_⟩
    rw [h.fenced hon, ← Call.frees_eq_some hfr]
    exact fun hmem => hno ⟨hana.1, hana.2, .inr hmem⟩

/-- **A tracked block gets a listed address** only where a block that is not
listed is resized and the system offers one. -/
theorem relisted_iff (h : BalanceInv c σ) (hi : σ.Completes c i)
    (hana : i.call.Analysed c.huMinsize) :
    (σ.result c i).2 ∈ σ.tool.log.allocations ∧
        (σ.result c i).2 ≠ i.call.argument ↔
      i.call.FreesUnlisted σ.tool.log ∧ i.env.ans.ptr ∈ σ.tool.log.allocations := by
  have hq := result_ne_zero hi hana.1
  constructor
  · intro hboth
    obtain ⟨hlisted, hne⟩ := hboth
    cases hon : c.huEnableHumalloc with
    | true =>
      have hserves := (h.held hon).serves hon (succeeds_of_analysed hi hana)
      have hno : ¬ Enters c.mallocConfig σ.tool i.call := by
        intro he
        exact (hserves.fenced hq he).1 ((h.fenced hon _).mp hlisted)
      obtain ⟨harg, hun⟩ := h.unlisted_of_passed hon hana hno
      refine ⟨hun, ?_⟩
      rw [← h.unlisted_answer hi hana.1 hun harg]
      exact hlisted
    | false => exact absurd rfl ((passes hon).fresh _ (h.plain hon _ hlisted) hne)
  · intro hboth
    obtain ⟨hun, hoffered⟩ := hboth
    obtain ⟨p, hfrees, hp⟩ := hun
    have hp : i.call.argument ∉ σ.tool.log.allocations := by
      rw [Call.frees_eq_some hfrees]
      exact hp
    have harg : i.call.argument ≠ 0 := by
      intro h0
      cases hcall : i.call with
      | realloc ptr size => simp [hcall, Call.frees, Call.argument] at hfrees h0; exact hfrees.1 h0
      | malloc size => simp [hcall, Call.frees] at hfrees
      | calloc nmemb size => simp [hcall, Call.frees] at hfrees
      | free ptr => exact absurd hana.1 (by simp [hcall, Call.requested])
    rw [h.unlisted_answer hi hana.1 ⟨p, hfrees, Call.frees_eq_some hfrees ▸ hp⟩ harg]
    exact ⟨hoffered, fun heq => hp (heq ▸ hoffered)⟩

/-- The log after the allocator half, and after the free event. -/
theorem events (h : BalanceInv c σ) (hi : σ.Completes c i) :
    ∃ l l₁ : LogState, σ.tool.log.Evicted l ∧ l.loggingEnabled = true ∧
      l₁ = freeEvent c.logConfig i.env i.call l ∧ l₁.loggingEnabled = true ∧
      l₁.uncaught = false ∧
      (σ.next c i).tool.log = allocEvent c.logConfig i.env
        (σ.result c i).2 i.call l₁ := by
  have hev := allocHalf_log c i.env.ans i.call σ.tool
  have hon : (allocHalf c i.env.ans i.call σ.tool).1.log.loggingEnabled = true := by
    rw [hev.enabled, h.configured.logging]
  refine ⟨_, _, hev, hon, rfl, by rw [freeEvent_enabled, hon], ?_, next_log⟩
  have hret := hi.returns
  rwa [next_log, logEvents, allocEvent_uncaught] at hret

/-- **What one call does to the balance.** -/
theorem next_iff (h : BalanceInv c σ) (hi : σ.Completes c i) :
    (σ.next c i).tool.log.Balances c.logConfig ↔ σ.tool.FreesListed c i := by
  obtain ⟨l, l₁, hev, hon, rfl, hon₁, hret, hlog⟩ := h.events hi
  have hbefore : l.excess = 0 := by
    have hexcess : l.excess = σ.tool.log.excess := by rw [hev.rest]; rfl
    rw [hexcess]
    exact LogState.balances_iff.mp h.balances
  have hun : i.call.FreesUnlisted l ↔ i.call.FreesUnlisted σ.tool.log := by
    rw [Call.FreesUnlisted, hev.allocations, Call.FreesUnlisted]
  have h0 : 0 ∉ l.allocations := by
    rw [hev.allocations]
    exact h.null
  obtain ⟨hfree, hkept⟩ := freeEvent_excess hon hret
  obtain ⟨hagain, hnew⟩ := allocEvent_excess (c := c.logConfig) (e := i.env)
    (q := (σ.result c i).2) (sized hi) hon₁
  have hrelisted : i.call.Analysed c.huMinsize ∧ (σ.result c i).2 ∈
      (freeEvent c.logConfig i.env i.call l).allocations ↔
      i.call.Analysed c.huMinsize ∧ i.call.FreesUnlisted σ.tool.log ∧
        i.env.ans.ptr ∈ σ.tool.log.allocations := by
    refine and_congr_right fun hana => ?_
    rw [mem_freeEvent hon h0, hev.allocations]
    exact h.relisted_iff hi hana
  rw [LogState.balances_iff, hlog]
  by_cases hlisted : i.call.FreesUnlisted σ.tool.log
  · have hminus := hfree (hun.mpr hlisted)
    rw [hbefore] at hminus
    by_cases hoffered : i.call.Analysed c.huMinsize ∧ i.env.ans.ptr ∈ σ.tool.log.allocations
    · -- one free and one allocation too many
      rw [hagain (hrelisted.mpr ⟨hoffered.1, hlisted, hoffered.2⟩), hminus]
      exact ⟨fun _ _ => hoffered, fun _ => by decide⟩
    · rw [hnew fun hboth => hoffered ⟨hboth.1, (hrelisted.mp hboth).2.2⟩, hminus]
      exact ⟨fun hzero => absurd hzero (by decide), fun hcond => absurd (hcond hlisted) hoffered⟩
  · rw [hnew fun hboth => hlisted (hrelisted.mp hboth).2.1, hkept (fun hc => hlisted (hun.mp hc)),
      hbefore]
    exact ⟨fun _ hc => absurd hc hlisted, fun _ => rfl⟩

/-- The listed addresses after a call. -/
theorem mem_next (h : BalanceInv c σ) (hi : σ.Completes c i) (k : Nat) :
    k ∈ (σ.next c i).tool.log.allocations ↔
      (k ∈ σ.tool.log.allocations ∧ k ≠ i.call.argument) ∨
        (k = (σ.result c i).2 ∧ i.call.Analysed c.huMinsize) := by
  obtain ⟨l, l₁, hev, hon, rfl, hon₁, -, hlog⟩ := h.events hi
  have h0 : 0 ∉ l.allocations := by
    rw [hev.allocations]
    exact h.null
  rw [hlog, mem_allocEvent (sized hi) hon₁, mem_freeEvent hon h0, hev.allocations]
  rfl

/-- With fences the listed addresses stay those of the fenced blocks. -/
theorem next_fenced (h : BalanceInv c σ) (hon : c.huEnableHumalloc = true)
    (hi : σ.Completes c i) (hcond : σ.tool.FreesListed c i) (k : Nat) :
    k ∈ (σ.next c i).tool.log.allocations ↔ k ∈ (σ.next c i).tool.mal.huActiveAllocs := by
  have hserves := (h.held hon).serves hon (h.succeeds_of_listed hi hcond)
  have hcall : Members c.mallocConfig i.call
      (huCall c.mallocConfig c.logConfig i.env.ans i.call σ.tool).2 σ.tool
      (huCall c.mallocConfig c.logConfig i.env.ans i.call σ.tool).1 :=
    huCall_members (h.held hon).frames.recorded (h.held hon).frames.inited i.call
  have hmembers := hcall.active k
  rw [← fenced_result hon i.env i.call σ.tool, ← fenced_mal hon i.env i.call σ.tool] at hmembers
  rw [h.mem_next hi, h.fenced hon]
  by_cases hk : k = 0
  · subst hk
    refine ⟨?_, fun hmem => absurd hmem hserves.frames.null⟩
    rintro (⟨hmem, -⟩ | ⟨hq, hana⟩)
    · exact absurd hmem (h.held hon).frames.null
    · exact absurd hq.symm (result_ne_zero hi hana.1)
  refine Iff.trans ?_ (hmembers hk).symm
  constructor
  · rintro (⟨hmem, hne⟩ | ⟨rfl, hana⟩)
    · exact ⟨.inl hmem, fun _ => hne⟩
    · by_cases he : Enters c.mallocConfig σ.tool i.call
      · refine ⟨.inr ⟨rfl, he⟩, fun harg heq => ?_⟩
        exact (hserves.fenced hk he).1 (heq ▸ harg)
      · obtain ⟨-, hun⟩ := h.unlisted_of_passed hon hana he
        obtain ⟨hlisted, hne⟩ := (h.relisted_iff hi hana).mpr ⟨hun, (hcond hun).2⟩
        exact ⟨.inl ((h.fenced hon _).mp hlisted), fun _ => hne⟩
  · rintro ⟨hmem | ⟨rfl, he⟩, hgone⟩
    · refine .inl ⟨hmem, fun heq => ?_⟩
      exact hgone (heq ▸ hmem) heq
    · exact .inr ⟨rfl, he.1, he.2.1⟩

theorem next (h : BalanceInv c σ) (hi : σ.Completes c i) (hcond : σ.tool.FreesListed c i) :
    BalanceInv c (σ.next c i) := by
  have hs := h.succeeds_of_listed hi hcond
  refine ⟨h.configured.next i.env i.call, hi.returns, fun hon => (h.held hon).next hon hs,
    fun hon k => h.next_fenced hon hi hcond k, ?_, (h.next_iff hi).mpr hcond⟩
  intro hoff k hk
  have hpasses := passes (σ := σ) (i := i) hoff
  rcases (h.mem_next hi k).mp hk with ⟨hold, hne⟩ | ⟨rfl, hana⟩
  · exact hpasses.kept k (h.plain hoff k hold) hne
  · exact hpasses.based (result_ne_zero hi hana.1)

end BalanceInv

/-- **A heap summary balances**, allocations less frees being the blocks in use,
after every call of a run exactly if every call gives up a listed pointer:
all tools, all minimum sizes, sizes that wrap included. The frees of the C
library's own blocks, which `hu_fini` has made before the last summary, are
calls of the run. -/
theorem heap_summary_balances_iff (c : HuConfig) (is : List Input)
    (hrun : Along (Sizing.next c) (Sizing.Completes c) (.init c) is) :
    Along (Sizing.next c) (fun σ i => (σ.next c i).tool.log.Balances c.logConfig) (.init c) is ↔
      Along (Sizing.next c) (fun σ i => σ.tool.FreesListed c i) (.init c) is :=
  Along.exact (fun _ _ h hi hcond => BalanceInv.next h hi hcond)
    (fun _ _ h hi => BalanceInv.next_iff h hi) is _ (BalanceInv.init c) hrun

/-- A block that moves and shrinks, a second one, and one of the C library that
is never given up. -/
theorem heap_summary_balances_moved :
    let c := HuConfig.tools true true true 8
    let is : List Input := [⟨.malloc 8, .answering 8192⟩, ⟨.malloc 4, .answering 64⟩,
      ⟨.realloc 12272 100, .answering 16384⟩, ⟨.calloc 3 8, .answering 32768⟩,
      ⟨.realloc 20368 5, .answering 128⟩, ⟨.realloc 0 9, .answering 65536⟩]
    Along (Sizing.next c) (fun σ i => (σ.next c i).tool.log.Balances c.logConfig) (.init c)
      is := by
  intro c is
  exact (heap_summary_balances_iff c is (by decide)).mpr (by decide)

/-- `free(NULL)` counts as a free: one allocation, one free, one block in use. And so
does the free of a block that is older than `hu_init`, after the program has freed
its own: one allocation, two frees, no block in use. -/
theorem null_free_unbalanced :
    let c := HuConfig.tools false false false 0
    let is : List Input := [⟨.malloc 8, .answering 64⟩, ⟨.free 0, .answering 0⟩]
    let js : List Input := [⟨.malloc 8, .answering 64⟩, ⟨.free 64, .answering 0⟩,
      ⟨.free 128, .answering 0⟩]
    let l := (exec (Sizing.next c) (.init c) is).tool.log
    let m := (exec (Sizing.next c) (.init c) js).tool.log
    (Along (Sizing.next c) (Sizing.Completes c) (.init c) is ∧
      l.allocinfoTotalAllocs = 1 ∧ l.allocinfoTotalFrees = 1 ∧ l.blocks = 1 ∧
      ¬ l.Balances c.logConfig) ∧
    (Along (Sizing.next c) (Sizing.Completes c) (.init c) js ∧
      m.allocinfoTotalAllocs = 1 ∧ m.allocinfoTotalFrees = 2 ∧ m.blocks = 0 ∧
      ¬ m.Balances c.logConfig) := by
  intro c is js l m
  have hnull : l.excess ≠ 0 := by decide
  have holder : m.excess ≠ 0 := by decide
  exact ⟨⟨by decide, by decide, by decide, by decide,
      fun h => hnull (LogState.balances_iff.mp h)⟩,
    ⟨by decide, by decide, by decide, by decide,
      fun h => holder (LogState.balances_iff.mp h)⟩⟩

end Heapusage
