/-
Heapusage.Client.LeakReport — the last report of a run against the program.

The results of `Log.Leaks` are about any table of records; here the records are
those of a run. What the program still holds when `hu_fini` runs is known from
the calls alone: its blocks with their sizes (`ClientHeap`), and for each the
callstack of the call that returned it (`Trace.birth`).

§1 Events  — a record in `allocations` after the events of a call is the one of
             this call or an old one (`logEvents_lookup`).
§2 Records — the records are those of the program's blocks (`LeakInv.perm_held`),
             also when the C library has released blocks of its own.
§3 Bytes   — the blocks of a program do not add up to `2 ^ 64` bytes, so no total
             of the report wraps (`HeapInv.held_bytes_lt`).
§4 The report of a run (`leak_report_of_run`).
-/
import Heapusage.Client.FenceFaults
import Heapusage.Log.Leaks
import Heapusage.Main.Process

namespace Heapusage

open Arenas Runs Tables Words

/-! ## §1 Events -/

/-- **The records after the events of a call**: that of the allocation event, if
it is tracked, and the old ones under other pointers. -/
theorem logEvents_lookup {c : LogConfig} {e : CallEnv} {q : Nat} {call : Call} {l : LogState}
    (hlog : l.loggingEnabled = true) {k : Nat} {r : HuAllocinfoT}
    (h : (logEvents c e q call l).allocations.lookup k = some r) :
    (k = q ∧ ∃ n, call.allocs = some n ∧ r = ⟨q, n, e.allocStack, [], 1⟩) ∨
      (l.allocations.lookup k = some r ∧
        ∀ n, call.allocs = some n → c.huLogMinleak ≤ n → k ≠ q) := by
  have hfree : ∀ r, (freeEvent c e call l).allocations.lookup k = some r →
      l.allocations.lookup k = some r := by
    intro r hk
    cases hfr : call.frees with
    | none => rwa [freeEvent_of_none _ _ _ _ hfr] at hk
    | some p =>
      rw [freeEvent_of_some _ _ _ _ hfr hlog, logFree_allocations] at hk
      exact (lookup_erase_eq_some.mp hk).2
  unfold logEvents at h
  cases hal : call.allocs with
  | none =>
    rw [allocEvent_of_none _ _ _ _ _ hal] at h
    exact .inr ⟨hfree r h, fun n hn => by cases hn⟩
  | some n =>
    have hon : (freeEvent c e call l).loggingEnabled = true := by rw [freeEvent_enabled, hlog]
    rw [allocEvent_of_some _ _ _ _ _ hal hon, logMalloc_allocations] at h
    split at h
    · rcases lookup_insert_eq_some.mp h with ⟨rfl, rfl⟩ | ⟨hkq, hold⟩
      · exact .inl ⟨rfl, n, rfl, rfl⟩
      · exact .inr ⟨hfree r hold, fun _ _ _ => hkq⟩
    · rename_i hsmall
      refine .inr ⟨hfree r h, fun m hm hmin => ?_⟩
      cases hm
      exact absurd hmin hsmall

/-! ## §2 Records -/

namespace Trace

/-- The tool and the program's heap, without the callstacks. -/
def session (σ : Trace) : Session := ⟨σ.tool, σ.client⟩

/-- A step of a program that passes on null or a block it holds, in which the
allocation succeeds and the fenced size does not wrap. -/
def Clean (c : HuConfig) (σ : Trace) (i : Input) : Prop := σ.session.Clean c i

instance (c : HuConfig) (σ : Trace) (i : Input) : Decidable (σ.Clean c i) :=
  inferInstanceAs (Decidable (σ.session.Clean c i))

/-- The free of a block that no call of the run returned. -/
def Alien (σ : Trace) (i : Input) : Prop :=
  match i.call with
  | .free p => σ.tool.Foreign p
  | _ => False

instance (σ : Trace) : ∀ i : Input, Decidable (σ.Alien i)
  | ⟨.free p, _⟩ => inferInstanceAs (Decidable (σ.tool.Foreign p))
  | ⟨.malloc _, _⟩ => inferInstanceAs (Decidable False)
  | ⟨.calloc _ _, _⟩ => inferInstanceAs (Decidable False)
  | ⟨.realloc _ _, _⟩ => inferInstanceAs (Decidable False)

/-- A step of a program that ends: one of its own calls, or a free that `hu_fini`
has the C library make. -/
def Settles (c : HuConfig) (σ : Trace) (i : Input) : Prop := σ.Clean c i ∨ σ.Alien i

instance (c : HuConfig) (σ : Trace) (i : Input) : Decidable (σ.Settles c i) :=
  inferInstanceAs (Decidable (_ ∨ _))

/-- The blocks of an analysed size, with the callstack each was obtained at. -/
def held (c : HuConfig) (σ : Trace) : List HuAllocinfoT :=
  (σ.client.filter fun b => 0 < b.2 ∧ c.huMinsize ≤ b.2).map fun b =>
    ⟨b.1, b.2, σ.birth b.1, [], 1⟩

theorem mem_held {c : HuConfig} {σ : Trace} {r : HuAllocinfoT} :
    r ∈ σ.held c ↔ (r.ptr, r.size) ∈ σ.client ∧ 0 < r.size ∧ c.huMinsize ≤ r.size ∧
      r = ⟨r.ptr, r.size, σ.birth r.ptr, [], 1⟩ := by
  constructor
  · intro h
    obtain ⟨⟨p, n⟩, hb, rfl⟩ := List.mem_map.mp h
    obtain ⟨hb, hsize⟩ := List.mem_filter.mp hb
    obtain ⟨hpos, hmin⟩ := of_decide_eq_true hsize
    exact ⟨hb, hpos, hmin, rfl⟩
  · rintro ⟨hb, hpos, hmin, hr⟩
    refine List.mem_map.mpr ⟨(r.ptr, r.size), List.mem_filter.mpr ⟨hb, ?_⟩, hr.symm⟩
    simp [hpos, hmin]

theorem held_nodup {c : HuConfig} {σ : Trace} (h : σ.client.ptrs.Nodup) : (σ.held c).Nodup := by
  have hptrs : ((σ.held c).map HuAllocinfoT.ptr).Nodup := by
    rw [held, List.map_map]
    exact h.sublist ((List.filter_sublist).map _)
  exact hptrs.of_map _

end Trace

/-- What holds between the calls of a clean run. -/
structure LeakInv (c : HuConfig) (σ : Trace) : Prop where
  fault : FaultInv c σ.session
  /-- a record carries the callstack of the call that returned its pointer -/
  born : ∀ k r, σ.tool.log.allocations.lookup k = some r →
    r = ⟨k, r.size, σ.birth k, [], 1⟩

namespace LeakInv

variable {c : HuConfig} {σ : Trace} {i : Input}

theorem init (c : HuConfig) : LeakInv c (.init c) where
  fault := FaultInv.init c
  born k r hk := by simp [Trace.init, huInit, logEnable, logInit] at hk

/-- A clean step is the same with and without the callstacks. -/
theorem next_session (h : LeakInv c σ) (hi : σ.Clean c i) :
    (σ.next c i).session = σ.session.next c i := by
  have hafter := h.fault.session.after_keeps (Session.Clean.sound hi)
  exact congrArg (Session.mk _) hafter

/-- A pointer that is listed after the call that returned it has an allocation
event, and a tracked one. -/
theorem tracked_answer (h : LeakInv c σ) (hi : σ.Clean c i)
    (hnext : FaultInv c (σ.next c i).session) {r : HuAllocinfoT}
    (hr : (σ.next c i).tool.log.allocations.lookup (σ.session.result c i).2 = some r) :
    ∃ n, i.call.allocs = some n ∧ c.logConfig.huLogMinleak ≤ n := by
  obtain ⟨-, hheld, hpos, hmin⟩ := hnext.recorded (mem_values_of_lookup hr)
  rw [hnext.listed _ r hr] at hheld
  have hq : (σ.session.result c i).2 ≠ 0 := by
    intro h0
    rw [h0] at hheld
    exact hnext.session.heap.null_not_held (List.mem_map_of_mem hheld)
  have hclient : (σ.next c i).session.client =
      i.call.after true (σ.session.result c i).2 σ.client :=
    congrArg Session.client (h.next_session hi)
  have hreturned : ((σ.session.result c i).2, i.call.requested) ∈ (σ.next c i).session.client := by
    rw [hclient]
    exact Call.returned_mem_after hq fun ptr hfree =>
      hq (Session.result_free c σ.session i ptr hfree)
  have hsize := ClientHeap.size_unique hnext.session.heap.client_nodup hheld hreturned
  rw [hsize] at hpos hmin
  refine ⟨i.call.requested, ?_, hmin⟩
  rw [Call.allocs_eq fun nmemb size hcall => ?_, if_pos hpos]
  rw [Session.result_eq, hcall] at hq
  exact allocHalf_calloc_fits c i.env.ans σ.tool hq

/-- The log after a clean step. -/
theorem next_log (h : LeakInv c σ) (hi : σ.Clean c i) :
    (σ.next c i).tool.log = logEvents c.logConfig i.env (σ.session.result c i).2 i.call
      (allocHalf c i.env.ans i.call σ.tool).1.log :=
  (congrArg (fun s : Session => s.tool.log) (h.next_session hi)).trans
    (Session.next_log c σ.session i)

/-- Logging is on after the allocator half. -/
theorem logs (h : LeakInv c σ) (i : Input) :
    (allocHalf c i.env.ans i.call σ.tool).1.log.loggingEnabled = true := by
  rw [(allocHalf_log c i.env.ans i.call σ.tool).enabled]
  exact h.fault.session.configured.logging

theorem next (h : LeakInv c σ) (hi : σ.Clean c i) : LeakInv c (σ.next c i) := by
  have hfault : FaultInv c (σ.next c i).session := h.next_session hi ▸ h.fault.next hi
  refine ⟨hfault, fun k r hk => ?_⟩
  have hev := allocHalf_log c i.env.ans i.call σ.tool
  have hbirth : (σ.next c i).birth k =
      if k = (σ.session.result c i).2 then i.env.allocStack else σ.birth k := rfl
  have hk' := hk
  rw [h.next_log hi] at hk'
  rcases logEvents_lookup (h.logs i) hk' with ⟨rfl, n, -, rfl⟩ | ⟨hold, hother⟩
  · rw [hbirth, if_pos rfl]
  · have hkq : k ≠ (σ.session.result c i).2 := by
      rintro rfl
      obtain ⟨n, hal, hmin⟩ := h.tracked_answer hi hfault hk
      exact hother n hal hmin rfl
    rw [hev.allocations] at hold
    rw [hbirth, if_neg hkq]
    exact h.born k r hold

/-- The free of a foreign block touches no block of the program and no record. -/
theorem next_foreign (h : LeakInv c σ) {p : Nat} (hp : p = 0 ∨ σ.tool.Foreign p)
    (env : CallEnv) : LeakInv c (σ.next c ⟨.free p, env⟩) := by
  have hsession := h.fault.session
  have hhalf := allocHalf_foreign (c := c) env.ans hp
  have hresult : wrapper c env .fresh (.free p) σ.tool =
      (logHalf c env 0 (.free p) (σ.tool.libcFree p), 0) := by
    rw [tracked_eq, hhalf]
  have htool : (σ.next c ⟨.free p, env⟩).tool = logHalf c env 0 (.free p) (σ.tool.libcFree p) :=
    congrArg Prod.fst hresult
  have hlog : (σ.next c ⟨.free p, env⟩).tool.log =
      logEvents c.logConfig env 0 (.free p) σ.tool.log := by
    rw [htool, logHalf_log]
    rfl
  have hclient : (σ.next c ⟨.free p, env⟩).client = σ.client.drop p := rfl
  have hheap : ∀ {Λ : Layout}, HeapInv Λ σ.tool σ.client →
      HeapInv Λ (σ.next c ⟨.free p, env⟩).tool (σ.next c ⟨.free p, env⟩).client := by
    intro Λ hi
    rw [hclient]
    refine (hi.foreign_keeps hp).congr ?_ ?_ ?_ ?_ <;> simp only [htool, logHalf_mal, logHalf_sys]
  refine ⟨⟨⟨hsession.configured.next env (.free p), hheap hsession.heap, ?_⟩,
    hheap h.fault.heap, ?_⟩, ?_⟩
  · have hmirror : Mirrors c.logConfig.huLogMinleak σ.tool.log σ.client := hsession.mirror
    have hgiven : Mirrors c.logConfig.huLogMinleak
        (freeEvent c.logConfig env (.free p) σ.tool.log) (σ.client.drop (Call.free p).argument) :=
      hmirror.given hsession.configured.logging hsession.heap.client_nodup
        hsession.heap.null_not_held
    show Mirrors c.logConfig.huLogMinleak (σ.next c ⟨.free p, env⟩).tool.log (σ.client.drop p)
    rw [hlog, logEvents, allocEvent_of_none _ _ _ _ _ rfl]
    exact hgiven
  · show (σ.next c ⟨.free p, env⟩).tool.log.Listed
    rw [hlog]
    exact h.fault.listed.events _ _ _ _ hsession.configured.logging
  · intro k r hk
    rw [hlog] at hk
    rcases logEvents_lookup hsession.configured.logging hk with ⟨-, n, hn, -⟩ | ⟨hold, -⟩
    · cases hn
    · have hk0 : k ≠ 0 := by
        rintro rfl
        obtain ⟨-, hheld, -, -⟩ := h.fault.recorded (mem_values_of_lookup hold)
        rw [h.fault.listed _ r hold] at hheld
        exact hsession.heap.null_not_held (List.mem_map_of_mem hheld)
      have hbirth : (σ.next c ⟨.free p, env⟩).birth k = σ.birth k := by
        show (if k = (wrapper c env .fresh (.free p) σ.tool).2 then env.allocStack
          else σ.birth k) = σ.birth k
        rw [hresult, if_neg hk0]
      rw [hbirth]
      exact h.born k r hold

theorem next_settles (h : LeakInv c σ) (hi : σ.Settles c i) : LeakInv c (σ.next c i) := by
  rcases hi with hclean | halien
  · exact h.next hclean
  · obtain ⟨call, env⟩ := i
    cases call with
    | free p => exact h.next_foreign (.inr halien) env
    | malloc size => exact halien.elim
    | calloc nmemb size => exact halien.elim
    | realloc ptr size => exact halien.elim

/-- **The records are those of the program's blocks.** -/
theorem perm_held (h : LeakInv c σ) :
    (values σ.tool.log.allocations).Perm (σ.held c) := by
  have hnd : (values σ.tool.log.allocations).Nodup := values_nodup h.fault.listed
  refine (List.perm_ext_iff_of_nodup hnd (Trace.held_nodup
    h.fault.session.heap.client_nodup)).mpr fun r => ?_
  rw [Trace.mem_held]
  constructor
  · intro hr
    obtain ⟨hlook, hheld, hpos, hmin⟩ := h.fault.recorded hr
    exact ⟨hheld, hpos, hmin, h.born _ r hlook⟩
  · rintro ⟨hheld, hpos, hmin, hr⟩
    obtain ⟨d, hd, hptr, hsize⟩ := h.fault.record hheld hpos hmin
    have hsame : d = r := by
      rw [hr, h.born _ d hd, hsize]
    exact hsame ▸ mem_values_of_lookup hd

/-- Each is one block, of at least the minimum size. -/
theorem recorded (h : LeakInv c σ) : Recorded c.logConfig (values σ.tool.log.allocations) := by
  intro r hr
  obtain ⟨-, -, hmin, hborn⟩ := Trace.mem_held.mp (h.perm_held.mem_iff.mp hr)
  exact ⟨congrArg HuAllocinfoT.count hborn, hmin⟩

end LeakInv

/-! ## §3 Bytes -/

/-- The region a block of the program lies in. -/
def HuState.regionOf (s : HuState) (b : Nat × Nat) : Region :=
  match s.mal.huActiveAllocs.lookup b.1 with
  | some info => info.region
  | none => ⟨b.1, b.2, .malloc⟩

namespace HeapInv

variable {c : MallocConfig} {s : HuState} {L : ClientHeap}

/-- It is live, and large enough. -/
theorem regionOf_live (hi : HeapInv (.shaped c) s L) {b : Nat × Nat} (hb : b ∈ L) :
    s.regionOf b ∈ s.sys.arena.blocks ∧ b.2 ≤ (s.regionOf b).size := by
  obtain ⟨p, n⟩ := b
  unfold HuState.regionOf
  cases hact : s.mal.huActiveAllocs.lookup p with
  | some info =>
    have hown := MallocState.active_owned hact
    have hshaped : info.Shaped c := hi.owned_good info hown
    have hsize := hi.fenced_size hb hact
    have hround := le_ceilTo info.userSize huSizeMultiple
    have hle := hshaped.rounded_le
    have hstart := hshaped.sysPtr_le
    refine ⟨hi.owned_live info hown, ?_⟩
    show n ≤ info.sysSize
    omega
  | none =>
    obtain ⟨m, hheld, hlive⟩ := hi.passed_through (List.mem_map_of_mem hb) hact
    have hsize : n = m := ClientHeap.size_unique hi.client_nodup hb hheld
    subst hsize
    exact ⟨hlive, Nat.le_refl n⟩

/-- No two blocks lie in one region. -/
theorem regionOf_inj (hi : HeapInv (.shaped c) s L) {b d : Nat × Nat}
    (heq : s.regionOf b = s.regionOf d) : b.1 = d.1 := by
  unfold HuState.regionOf at heq
  cases hb : s.mal.huActiveAllocs.lookup b.1 with
  | some info =>
    cases hd : s.mal.huActiveAllocs.lookup d.1 with
    | some info' =>
      rw [hb, hd] at heq
      have hsame : info = info' := hi.owned_inj (MallocState.active_owned hb)
        (MallocState.active_owned hd) (congrArg Block.base heq)
      rw [← hi.active_key _ info hb, ← hi.active_key _ info' hd, hsame]
    | none =>
      rw [hb, hd] at heq
      exact Origin.noConfusion (congrArg Block.tag heq)
  | none =>
    cases hd : s.mal.huActiveAllocs.lookup d.1 with
    | some info' =>
      rw [hb, hd] at heq
      exact Origin.noConfusion (congrArg Block.tag heq)
    | none =>
      rw [hb, hd] at heq
      exact congrArg Block.base heq

/-- **The blocks of a program do not add up to `2 ^ 64` bytes.** -/
theorem held_bytes_lt (hi : HeapInv (.shaped c) s L) : (L.map Prod.snd).sum < 2 ^ 64 := by
  have hnd : (L.map s.regionOf).Nodup := by
    have hpairs : L.Pairwise fun b d => b.1 ≠ d.1 := List.pairwise_map.mp hi.client_nodup
    exact List.pairwise_map.mpr (hpairs.imp fun hne heq => hne (hi.regionOf_inj heq))
  have hlive : ∀ r ∈ L.map s.regionOf, r ∈ s.sys.arena.blocks := by
    intro r hr
    obtain ⟨b, hb, rfl⟩ := List.mem_map.mp hr
    exact (hi.regionOf_live hb).1
  calc (L.map Prod.snd).sum
      ≤ (L.map fun b => (s.regionOf b).size).sum :=
        List.sum_le_sum fun b hb => (hi.regionOf_live hb).2
    _ = ((L.map s.regionOf).map Block.size).sum := by rw [List.map_map]; rfl
    _ ≤ 2 ^ 64 - 1 := s.sys.arena.sum_size_le hnd hlive
    _ < 2 ^ 64 := by decide

end HeapInv

/-- Nor do those of an analysed size. -/
theorem LeakInv.bytes_lt {c : HuConfig} {σ : Trace} (h : LeakInv c σ) :
    ((σ.held c).map HuAllocinfoT.size).sum < 2 ^ 64 := by
  have hsizes : (σ.held c).map HuAllocinfoT.size =
      (σ.client.filter fun b => 0 < b.2 ∧ c.huMinsize ≤ b.2).map Prod.snd := by
    rw [Trace.held, List.map_map]
    rfl
  rw [hsizes]
  have hsub : ((σ.client.filter fun b => 0 < b.2 ∧ c.huMinsize ≤ b.2).map Prod.snd).Sublist
      (σ.client.map Prod.snd) := List.filter_sublist.map Prod.snd
  exact (List.Sublist.sum_le_sum hsub fun _ _ => Nat.zero_le _).trans_lt h.fault.heap.held_bytes_lt

/-! ## §4 The report -/

/-- A call by some thread. -/
def Step.ofCall (i : Tid × Input) : Step := .call i.1 i.2.call i.2.env

/-- The calls of `free` that `hu_fini` has the C library make. -/
def Freeres.inputs (frees : Freeres) : List Input := frees.map fun f => ⟨.free f.1, f.2⟩

/-- The program and its blocks when the last report is written. -/
def Trace.ended (c : HuConfig) (is : List (Tid × Input)) (frees : Freeres) : Trace :=
  exec (Trace.next c) (.init c) (is.map Prod.snd ++ frees.inputs)

/-- A program that ends: clean calls, and then the frees of `hu_fini`. -/
def Trace.Ends (c : HuConfig) (is : List (Tid × Input)) (frees : Freeres) : Prop :=
  Along (Trace.next c) (Trace.Settles c) (.init c) (is.map Prod.snd ++ frees.inputs)

instance (c : HuConfig) (is : List (Tid × Input)) (frees : Freeres) :
    Decidable (Trace.Ends c is frees) :=
  inferInstanceAs (Decidable (Along _ _ _ _))

/-- Calls by threads that are not bypassed are the calls of a trace. -/
theorem Process.exec_calls (c : HuConfig) (is : List (Tid × Input)) : ∀ σ : Trace,
    exec (Process.next c) ⟨σ.tool, fun _ => .fresh⟩ (is.map Step.ofCall) =
      ⟨(exec (Trace.next c) σ (is.map Prod.snd)).tool, fun _ => .fresh⟩ := by
  induction is with
  | nil => exact fun _ => rfl
  | cons i is ih => exact fun σ => ih (σ.next c i.2)

/-- The phases of `hu_fini` write a summary of the tables as they are. -/
theorem Process.huFini_logFile (c : HuConfig) (hwritable : c.logWritable = true) (t : Tid)
    (order : List HuAllocinfoT) (P : Process) :
    (exec (Process.next c) P (Step.huFini t [] order)).tool.log.logFile =
      .summary (summaryOf c.logConfig false (huQuarantineWasEvicted P.tool.mal) order
        P.tool.log) :: P.tool.log.logFile := by
  have hopen : c.logConfig.logWritable = true := hwritable
  simp [Step.huFini, Process.next, huFini, Process.logSummary, Heapusage.logSummary, hopen,
    Process.onLog, Process.onThread, logEnable, summaryOf]

/-- The frees of `hu_fini` are calls like those before. -/
theorem Step.huFini_frees (is : List (Tid × Input)) (t : Tid) (frees : Freeres)
    (order : List HuAllocinfoT) : is.map Step.ofCall ++ Step.huFini t frees order =
      (is ++ frees.inputs.map (t, ·)).map Step.ofCall ++ Step.huFini t [] order := by
  simp [Step.huFini, Step.ofCall, Freeres.inputs, Function.comp_def]

/-- The summary is about the blocks: the `are lost` lines are their partition by the
callstack they were obtained at, the bytes and blocks in use are theirs, and no
number has wrapped. -/
structure Summary.Accounts (s : Summary) (blocks : List HuAllocinfoT) : Prop where
  lines : LeakReport blocks (s.lost.map HuAllocinfoT.line)
  exact : ∀ line ∈ s.lost.map HuAllocinfoT.line, line.size < 2 ^ 64 ∧ line.count < 2 ^ 31
  bytes : s.inUseBytes.toNat = (blocks.map HuAllocinfoT.size).sum
  count : s.inUseBlocks.toNat = blocks.length

/-- The summary of the tables between two calls of a clean run. -/
theorem LeakInv.accounts {c : HuConfig} {σ : Trace} (h : LeakInv c σ) (hleak : c.huLeak = true)
    (hcount : (σ.held c).length < 2 ^ 31) {order : List HuAllocinfoT}
    (horder : order.Perm (values σ.tool.log.allocations)) (ondemand evicted : Bool) :
    (summaryOf c.logConfig ondemand evicted order σ.tool.log).Accounts (σ.held c) := by
  have hheld := h.perm_held
  have hbytes : σ.tool.log.liveBytes < 2 ^ 64 := by
    rw [LogState.liveBytes, (hheld.map HuAllocinfoT.size).sum_eq]
    exact h.bytes_lt
  obtain ⟨-, hlines⟩ := summaryOf_lost (c := c.logConfig) hleak h.recorded hbytes ondemand evicted
    horder
  obtain ⟨huse, huseBlocks⟩ := summaryOf_inUse_of_perm c.logConfig ondemand evicted horder
  have hreport := hlines.of_perm hheld
  refine ⟨hreport, fun line hline => ?_, ?_, ?_⟩
  · rw [hreport.bytes line hline, hreport.blocks line hline]
    refine ⟨(Grouping.total_le _ _ line.callstack _).trans_lt h.bytes_lt,
      (Grouping.total_le _ _ line.callstack _).trans_lt ?_⟩
    simpa using hcount
  · rw [huse, UInt64.toNat_ofNat_of_lt' hbytes, LogState.liveBytes,
      (hheld.map HuAllocinfoT.size).sum_eq]
  · rw [huseBlocks, hheld.length_eq, UInt64.toNat_ofNat_of_lt' (hcount.trans (by decide))]

/-- Of the blocks of a program no more are of an analysed size. -/
theorem Trace.held_length_le (c : HuConfig) (σ : Trace) : (σ.held c).length ≤ σ.client.length := by
  rw [Trace.held, List.length_map]
  exact List.length_filter_le _ _

/-- A run of calls and the frees of `hu_fini`. -/
theorem LeakInv.ended {c : HuConfig} {is : List (Tid × Input)} {frees : Freeres}
    (hrun : Trace.Ends c is frees) : LeakInv c (Trace.ended c is frees) :=
  have hstep : ∀ σ i, LeakInv c σ → σ.Settles c i → LeakInv c (σ.next c i) :=
    fun _ _ h hi => h.next_settles hi
  Along.invariant hstep _ _ (LeakInv.init c) hrun

/-- The log after calls and `hu_fini`. -/
theorem Process.exec_calls_fini (c : HuConfig) (hwritable : c.logWritable = true)
    (is : List (Tid × Input)) (t : Tid) (frees : Freeres) (order : List HuAllocinfoT) :
    let σ := Trace.ended c is frees
    (Runs.exec (Process.next c) (.start c)
        (is.map Step.ofCall ++ Step.huFini t frees order)).tool.log.logFile =
      .summary (summaryOf c.logConfig false (huQuarantineWasEvicted σ.tool.mal) order
        σ.tool.log) :: σ.tool.log.logFile := by
  intro σ
  have hinputs : (is ++ frees.inputs.map (t, ·)).map Prod.snd = is.map Prod.snd ++ frees.inputs := by
    simp [Function.comp_def]
  have hcalls := Process.exec_calls c (is ++ frees.inputs.map (t, ·)) (.init c)
  rw [show (⟨(Trace.init c).tool, fun _ => .fresh⟩ : Process) = .start c from rfl, hinputs]
    at hcalls
  rw [Step.huFini_frees, exec_append, hcalls]
  exact Process.huFini_logFile c hwritable t order _

/-- **The report of a run**: when a program that was run with the leak tool ends,
the last entry of the log is a summary of the blocks it still holds, those of an
analysed size, by the callstacks they were obtained at. The blocks that the C library
releases at the beginning of `hu_fini` are null, blocks the program holds or blocks
that no call of the run returned. -/
theorem leak_report_of_run (c : HuConfig) (hleak : c.huLeak = true)
    (hwritable : c.logWritable = true) (is : List (Tid × Input)) (frees : Freeres)
    (hrun : Trace.Ends c is frees) (hfew : (Trace.ended c is frees).client.length < 2 ^ 31)
    (t : Tid) (order : List HuAllocinfoT)
    (horder : order.Perm (values (Trace.ended c is frees).tool.log.allocations)) :
    let σ := Trace.ended c is frees
    ∃ s : Summary,
      (exec (Process.next c) (.start c)
          (is.map Step.ofCall ++ Step.huFini t frees order)).tool.log.logFile =
        .summary s :: σ.tool.log.logFile ∧
      s.Accounts (σ.held c) :=
  ⟨_, Process.exec_calls_fini c hwritable is t frees order,
    (LeakInv.ended hrun).accounts hleak ((Trace.held_length_le c _).trans_lt hfew) horder false _⟩

/-- Two threads; one block is freed, one is below the minimum size, one is lost. At the
end the C library frees null, a block of its own, and the small one. -/
theorem leak_report_of_run_one_lost :
    let c := HuConfig.tools true true true 8
    let is : List (Tid × Input) := [(0, ⟨.malloc 8, .answering 8192⟩),
      (1, ⟨.malloc 24, .answering 16384⟩), (1, ⟨.malloc 4, .answering 64⟩),
      (0, ⟨.free 12272, .answering 0⟩)]
    let frees : Freeres := [(0, .answering 0), (128, .answering 0), (64, .answering 0)]
    ∃ s : Summary,
      (exec (Process.next c) (.start c) (is.map Step.ofCall ++
        Step.huFini 0 frees [⟨20448, 24, [1, 2], [], 1⟩])).tool.log.logFile = [.summary s] ∧
      s.Accounts [⟨20448, 24, [1, 2], [], 1⟩] := by
  intro c is frees
  have hvalues : values (Trace.ended c is frees).tool.log.allocations =
      [⟨20448, 24, [1, 2], [], 1⟩] := by decide
  have hheld : (Trace.ended c is frees).held c = [⟨20448, 24, [1, 2], [], 1⟩] := by decide
  have hquiet : (Trace.ended c is frees).tool.log.logFile = [] := List.isEmpty_iff.mp (by decide)
  obtain ⟨s, hfile, haccounts⟩ := leak_report_of_run c rfl rfl is frees (by decide)
    (by decide) 0 [⟨20448, 24, [1, 2], [], 1⟩] (by rw [hvalues])
  rw [hheld] at haccounts
  rw [hquiet] at hfile
  exact ⟨s, hfile, haccounts⟩

end Heapusage
