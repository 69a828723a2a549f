/-
Heapusage.Main.Transcript — the log file of a process.

`Main.Process` has the log of `Log.HuLog`, a list of entries, and
`Log.LogFileTheorems` the file, for any sequence of calls of `hulog.cpp`. Here the two
meet: the calls a step of a process makes are written out (`ProcessStep.logCalls`), a
`Transcript` is a process with the module they are made on, and after every run its file
is the text of the entries of the process (`process_log_file`).

Steps of a process are those of `Main.Process` and faults, each up to the call of `exit`
in `hu_sig_handler`; the phases of `hu_fini` that follow are steps of their own.
-/
import Heapusage.Log.LogFileTheorems
import Heapusage.Main.Atomicity
import Heapusage.Main.Fork

namespace Heapusage

open Runs Tables

/-! ## §1 The calls of a step -/

/-- The blocks a call of the fenced allocator evicts. -/
def HuState.evicts (c : MallocConfig) (ans : SysAns) (s : HuState) : Call → List HuAllocInfo
  | .malloc _ => []
  | .calloc _ _ => []
  | .free ptr => if s.mal.huMallocInited then s.mal.evictions c ptr else []
  | .realloc ptr size =>
      if !s.mal.huMallocInited then []
      else if ptr = 0 then []
      else if size = 0 then s.mal.evictions c ptr
      else
        match huGetAllocinfo ptr s.mal with
        -- the new block is there before the old one is given up
        | some _ => (huMalloc c ans size s).1.mal.evictions c ptr
        | none => []

/-- What happens in a process: a step, or a fault of thread `t` at the address `x`. -/
inductive ProcessStep where
  | step (i : Step)
  | fault (t : Tid) (x : Nat) (callstack : Callstack) (active freed : List HuAllocinfoT)

def Process.advance (c : HuConfig) (P : Process) : ProcessStep → Process
  | .step i => P.next c i
  | .fault t x callstack active freed => huSigHandlerOn c t x callstack active freed P

/-- The calls of `hulog.cpp` that a wrapper makes: the evictions of the allocator,
then the events. -/
def Call.logCalls (c : HuConfig) (e : CallEnv) (call : Call) (s : HuState) : List FileOp :=
  (if c.huEnableHumalloc then s.evicts c.mallocConfig e.ans call else []).map
      (fun info => .removeFreed info.userPtr) ++
    (call.events e (allocHalf c e.ans call s).2).map
      fun ev => .event ev.event ev.ptr ev.size ev.callstack

/-- The calls of `hulog.cpp` that a step makes. -/
def ProcessStep.logCalls (c : HuConfig) (P : Process) : ProcessStep → List FileOp
  | .step (.call t call env) => if (P.tls t).tracks then call.logCalls c env P.tool else []
  | .step (.report _ .disable) => [.enable false]
  | .step (.report _ (.summary order)) =>
      [.summary true (huQuarantineWasEvicted P.tool.mal) order]
  | .step (.report _ .enable) => [.enable true]
  | .step (.fini _ .disable) => [.enable false]
  | .step (.fini _ (.summary order)) =>
      [.summary false (huQuarantineWasEvicted P.tool.mal) order]
  | .step (.fini _ .restore) => []
  | .fault _ x callstack active freed => [.fault x callstack active freed]

/-- Calls with what the libraries answer during them. -/
def FileOp.withLoader (ld : Loader) (ops : List FileOp) : List FileInput := ops.map (⟨·, ld⟩)

theorem FileOp.withLoader_append (ld : Loader) (ops ops' : List FileOp) :
    withLoader ld (ops ++ ops') = withLoader ld ops ++ withLoader ld ops' := List.map_append

section Calls

variable {c : HuConfig} {ld : Loader}

theorem exec_removeFreed (lc : LogConfig) (blocks : List HuAllocInfo) (l : LogState) :
    exec (LogState.next lc) l
        (FileOp.withLoader ld (blocks.map fun info => .removeFreed info.userPtr)) =
      forgetFreed lc blocks l := by
  rw [exec, FileOp.withLoader, List.map_map, List.foldl_map]
  rfl

theorem exec_events (evs : List PendingEvent) : ∀ s : HuState,
    exec (LogState.next c.logConfig) s.log
        (FileOp.withLoader ld (evs.map fun ev => .event ev.event ev.ptr ev.size ev.callstack)) =
      (evs.foldl (PendingEvent.run c) s).log := by
  induction evs with
  | nil => exact fun _ => rfl
  | cons ev evs ih => exact fun s => ih (ev.run c s)

/-- The fenced allocator changes the log by its evictions alone. -/
theorem huCall_log_eq (mc : MallocConfig) (lc : LogConfig) (ans : SysAns) (call : Call)
    (s : HuState) : (huCall mc lc ans call s).1.log = forgetFreed lc (s.evicts mc ans call) s.log := by
  cases call with
  | malloc size => exact huMalloc_log mc ans size s
  | calloc nmemb size => exact huCalloc_log mc ans nmemb size s
  | free ptr =>
    simp only [huCall, HuState.evicts]
    cases hinit : s.mal.huMallocInited with
    | false =>
      rw [huFree_uninited mc lc ans s hinit]
      rfl
    | true => exact huFree_log_eq mc lc ans ptr s hinit
  | realloc ptr size =>
    simp only [huCall, HuState.evicts]
    cases hinit : s.mal.huMallocInited with
    | false =>
      rw [huRealloc_uninited mc lc ans s hinit]
      rfl
    | true =>
      rcases huRealloc_cases mc lc ans ptr size s hinit with ⟨hp, h⟩ | ⟨hp, hn, h⟩ |
        ⟨hp, hn, info, hinfo, h⟩ | ⟨hp, hn, hnone, h⟩
      · rw [h, huMalloc_log, hp]
        rfl
      · rw [h, huFree_log_eq mc lc ans ptr s hinit, hn]
        simp [hp]
      · have hcopied : (reallocCopied mc ans info size s).mal.huMallocInited = true := by
          rw [reallocCopied_mal, huMalloc_inited, hinit]
        rw [h, huFree_log_eq mc lc ans ptr _ hcopied, reallocCopied_log, reallocCopied_mal,
          huGetAllocinfo, hinfo]
        simp [hp, hn]
      · rw [h, huGetAllocinfo, hnone]
        simp [hp, hn]
        rfl

/-- The log of a tracked call is made by its calls. -/
theorem wrapper_log (e : CallEnv) (call : Call) (s : HuState) :
    (wrapper c e .fresh call s).1.log =
      exec (LogState.next c.logConfig) s.log (FileOp.withLoader ld (call.logCalls c e s)) := by
  have hevicted : (allocHalf c e.ans call s).1.log = forgetFreed c.logConfig
      (if c.huEnableHumalloc then s.evicts c.mallocConfig e.ans call else []) s.log := by
    unfold allocHalf
    split
    · exact huCall_log_eq _ _ e.ans call s
    · exact libcCall_log e.ans call s
  rw [Call.logCalls, FileOp.withLoader_append, exec_append, exec_removeFreed, ← hevicted,
    exec_events, tracked_eq, logHalf_events]

/-- **The log of a process is made by the calls of its steps.** -/
theorem advance_log (ld : Loader) (P : Process) (i : ProcessStep) :
    (P.advance c i).tool.log =
      exec (LogState.next c.logConfig) P.tool.log (FileOp.withLoader ld (i.logCalls c P)) := by
  cases i with
  | fault t x callstack active freed => rfl
  | step i =>
    cases i with
    | report t phase => cases phase <;> rfl
    | fini t phase => cases phase <;> rfl
    | call t call env =>
      simp only [Process.advance, Process.next, Process.result, ProcessStep.logCalls]
      cases htracks : (P.tls t).tracks with
      | true =>
        have hfresh : wrapper c env (P.tls t) call P.tool = wrapper c env .fresh call P.tool := by
          rw [wrapper_eq, wrapper_eq, htracks, ThreadLocal.fresh_tracks]
        rw [hfresh, wrapper_log]
        rfl
      | false =>
        rw [wrapper_eq, htracks]
        exact libcCall_log env.ans call P.tool

end Calls

/-! ## §2 Runs -/

/-- A run without faults. -/
theorem Process.exec_steps (c : HuConfig) (is : List Step) : ∀ P : Process,
    exec (Process.advance c) P (is.map .step) = exec (Process.next c) P is := by
  induction is with
  | nil => exact fun _ => rfl
  | cons i is ih => exact fun P => ih (P.next c i)

/-- A process, and the module its calls of `hulog.cpp` are made on. -/
structure Transcript where
  process : Process
  hulog : LogModule

namespace Transcript

/-- The process after `hu_init`. -/
def start (c : HuConfig) (t : FileConfig) : Transcript where
  process := .start c
  hulog := (LogModule.logInit c.logConfig t).onTables (logEnable true)

/-- A step, with the libraries as they are then. -/
def next (c : HuConfig) (t : FileConfig) (T : Transcript) (i : ProcessStep × Loader) :
    Transcript where
  process := T.process.advance c i.1
  hulog := exec (LogModule.next c.logConfig t) T.hulog
    (FileOp.withLoader i.2 (i.1.logCalls c T.process))

/-- The process does not look at the file. -/
theorem exec_process (c : HuConfig) (t : FileConfig) (is : List (ProcessStep × Loader)) :
    ∀ T : Transcript, (exec (next c t) T is).process =
      exec (Process.advance c) T.process (is.map Prod.fst) := by
  induction is with
  | nil => exact fun _ => rfl
  | cons i is ih => exact fun T => ih (T.next c t i)

end Transcript

/-- A sequence of calls. -/
theorem Follows.calls {c : LogConfig} {t : FileConfig} {given : Loader → Prop} {ld : Loader}
    (hgiven : given ld) (hld : ld.Answers c) (ops : List FileOp) :
    ∀ {l : LogState} {m : LogModule}, Follows c t given l m →
      Follows c t given (exec (LogState.next c) l (FileOp.withLoader ld ops))
        (exec (LogModule.next c t) m (FileOp.withLoader ld ops)) := by
  induction ops with
  | nil => exact fun h => h
  | cons op ops ih =>
    intro l m h
    have hnext : Follows c t given (l.next c ⟨op, ld⟩) (m.next c t ⟨op, ld⟩) := h.next hgiven hld
    exact ih hnext

/-- A table of symbols that were given agrees with the cache. -/
theorem Follows.exists_symbols {c : LogConfig} {t : FileConfig} {given : Loader → Prop}
    {l : LogState} {m : LogModule} (h : Follows c t given l m) {ld : Loader} (hld : given ld) :
    ∃ symbol, AgreesWith symbol m.symbolCache ∧
      ∀ addr, ∃ ld, given ld ∧ symbol addr = ld.symbol addr := by
  refine ⟨fun addr => (m.symbolCache.lookup addr).getD (ld.symbol addr), ?_, fun addr => ?_⟩
  · intro addr s hs
    simp only [hs, Option.getD_some]
  · cases hlookup : m.symbolCache.lookup addr with
    | none => exact ⟨ld, hld, by simp only [hlookup, Option.getD_none]⟩
    | some s =>
      obtain ⟨ld', hld', hs⟩ := h.symbols addr s hlookup
      exact ⟨ld', hld', by simp only [hlookup, Option.getD_some, hs]⟩

/-- After every run the module has the tables and the text of the entries of the process. -/
theorem Transcript.exec_follows (c : HuConfig) (t : FileConfig) (is : List (ProcessStep × Loader))
    (his : ∀ i ∈ is, i.2.Answers c.logConfig) :
    Follows c.logConfig t (fun ld => ∃ i ∈ is, i.2 = ld)
      (exec (Process.advance c) (.start c) (is.map Prod.fst)).tool.log
      (exec (Transcript.next c t) (.start c t) is).hulog := by
  have hstep : ∀ (T : Transcript) (i : ProcessStep × Loader),
      Follows c.logConfig t (fun ld => ∃ i ∈ is, i.2 = ld) T.process.tool.log T.hulog → i ∈ is →
      Follows c.logConfig t (fun ld => ∃ i ∈ is, i.2 = ld) (T.next c t i).process.tool.log
        (T.next c t i).hulog := by
    intro T i h hi
    have hlog : (T.next c t i).process.tool.log = _ := advance_log i.2 T.process i.1
    rw [hlog]
    exact Follows.calls ⟨i, hi, rfl⟩ (his i hi) _ h
  have hstart : Follows c.logConfig t (fun ld => ∃ i ∈ is, i.2 = ld)
      (Transcript.start c t).process.tool.log (Transcript.start c t).hulog :=
    Follows.logInit.onTables (f := logEnable true) (fun _ => rfl) (fun _ => rfl)
  have hfollows := Along.invariant hstep is _ hstart (along_of_forall is (fun _ hi => hi) _)
  rw [Transcript.exec_process] at hfollows
  exact hfollows

/-- The symbols in the file are answers of the run. -/
theorem Transcript.exec_file (c : HuConfig) (t : FileConfig) (is : List (ProcessStep × Loader))
    (his : ∀ i ∈ is, i.2.Answers c.logConfig) :
    ∃ symbol : Nat → String,
      (is ≠ [] → ∀ addr, ∃ i ∈ is, symbol addr = i.2.symbol addr) ∧
      (exec (Transcript.next c t) (.start c t) is).hulog.file =
        (if c.logWritable then t.header else []) ++
          logText t.huLogNosyms symbol t.huPrefix
            (exec (Process.advance c) (.start c) (is.map Prod.fst)).tool.log.written := by
  have hfollows := exec_follows c t is his
  cases is with
  | nil => exact ⟨fun _ => "", fun h => absurd rfl h, hfollows.file _ fun _ _ hs => by cases hs⟩
  | cons i rest =>
    obtain ⟨symbol, hagrees, hanswered⟩ := hfollows.exists_symbols ⟨i, List.mem_cons_self, rfl⟩
    refine ⟨symbol, fun _ addr => ?_, hfollows.file symbol hagrees⟩
    obtain ⟨ld, ⟨j, hj, rfl⟩, hs⟩ := hanswered addr
    exact ⟨j, hj, hs⟩

/-- **The log file of a process**: after every run of calls by any threads, reports,
faults and `hu_fini`, the module has the tables and counters of the process, and the
file is the header and the text of its entries. -/
theorem process_log_file (c : HuConfig) (t : FileConfig) (is : List (ProcessStep × Loader))
    (his : ∀ i ∈ is, i.2.Answers c.logConfig) :
    let P := exec (Process.advance c) (.start c) (is.map Prod.fst)
    let m := (exec (Transcript.next c t) (.start c t) is).hulog
    m.tables = { P.tool.log with logFile := [] } ∧
      ∃ symbol : Nat → String,
        (is ≠ [] → ∀ addr, ∃ i ∈ is, symbol addr = i.2.symbol addr) ∧
        m.file = (if c.logWritable then t.header else []) ++
          logText t.huLogNosyms symbol t.huPrefix P.tool.log.written :=
  ⟨(Transcript.exec_follows c t is his).tables, Transcript.exec_file c t is his⟩

/-- The fence tool, for programs of one object file. -/
def fenceOfProg : HuConfig := { HuConfig.tools false true false 8 with objfile := fun _ => "prog" }

/-- A block of 8 bytes is written to 8 bytes past its end. -/
def writePastEnd : List (ProcessStep × Loader) :=
  [(.step (.call 0 (.malloc 8) (.answering 8192)), .oneFunction "f"),
    (.fault 0 12288 [1, 5] [⟨12272, 8, [1, 2], [], 1⟩] [], .oneFunction "f")]

/-- The fault at the first byte of the fence. -/
theorem process_log_file_write_past_end :
    ∃ symbol : Nat → String,
      (∀ addr, ∃ i ∈ writePastEnd, symbol addr = i.2.symbol addr) ∧
      (exec (Transcript.next fenceOfProg (.make true false 77 none none))
        (.start fenceOfProg (.make true false 77 none none)) writePastEnd).hulog.file =
        (FileConfig.make true false 77 none none).header ++
          logText false symbol (FileConfig.make true false 77 none none).huPrefix
            [.invalidAccess (some [5]) (some (.afterAlloc 12288 8 8 (some [2])))] := by
  have hanswers : (Loader.oneFunction "f").Answers fenceOfProg.logConfig :=
    Loader.oneFunction_answers "f"
  obtain ⟨-, symbol, hsymbol, hfile⟩ :=
    process_log_file fenceOfProg (.make true false 77 none none) writePastEnd (by
      simp only [writePastEnd, List.forall_mem_cons]
      exact ⟨hanswers, hanswers, by simp⟩)
  have hwritten : (exec (Process.advance fenceOfProg) (.start fenceOfProg)
      (writePastEnd.map Prod.fst)).tool.log.written =
      [.invalidAccess (some [5]) (some (.afterAlloc 12288 8 8 (some [2])))] := by decide
  rw [hwritten] at hfile
  exact ⟨symbol, hsymbol (List.cons_ne_nil _ _), hfile⟩

end Heapusage
