/-
Heapusage.Main.Process — a process with its threads: `hu_set_bypass`,
`hu_report`, `hu_fini` and the handlers of `pthread_atfork`.

A process is the tool state and the thread-local variables of every thread; a
thread that does not exist yet has the values a new one starts with. A wrapper
call is one step: it runs under `hu_mutex` from prologue to return, or goes to
the C library, which has its own lock. `hu_report` takes no lock, so its three
phases are steps of their own and calls of other threads may come in between;
`hu_fini` is taken apart in the same way. Before its phases `hu_fini` has the C
library release blocks of its own, by calls of `free` that come to the wrapper
like any other: these are call steps (`Step.huFini`).

After a fork parent and child share nothing: `Process.atforkParent` and
`Process.atforkChild` are the two processes there are then.
-/
import Heapusage.Main.HuMainTheorems
import Heapusage.Lib.Run

namespace Heapusage

/-! ## Thread-local variables -/

namespace ThreadLocal

/-- `hu_set_bypass` -/
def huSetBypass (bypass : Bool) (t : ThreadLocal) : ThreadLocal := { t with huBypass := bypass }

/-- `hu_atfork_prepare` -/
def huAtforkPrepare (t : ThreadLocal) : ThreadLocal :=
  { t with huBypassSaved := t.huBypass, huBypass := true }

/-- `hu_atfork_parent` -/
def huAtforkParent (t : ThreadLocal) : ThreadLocal := { t with huBypass := t.huBypassSaved }

/-- `hu_atfork_child`, which keeps the bypass. -/
def huAtforkChild (t : ThreadLocal) : ThreadLocal := t

theorem tracks_eq (t : ThreadLocal) : t.tracks = (!t.huBypass && decide (t.huCallcount = 0)) := by
  unfold tracks isRecursiveCall guard
  cases t.huBypass with
  | true => rfl
  | false =>
    by_cases hcount : t.huCallcount = 0
    · simp [hcount]
    · have hpos : t.huCallcount + 1 > 1 := by omega
      simp [hcount, hpos]

theorem tracks_iff {t : ThreadLocal} :
    t.tracks = true ↔ t.huBypass = false ∧ t.huCallcount = 0 := by
  rw [tracks_eq]
  simp

/-- The parent's handlers leave the flag as it was. -/
theorem huAtforkParent_prepare (t : ThreadLocal) :
    t.huAtforkPrepare.huAtforkParent.huBypass = t.huBypass := rfl

/-- The child's handlers set it. -/
theorem huAtforkChild_prepare (t : ThreadLocal) :
    t.huAtforkPrepare.huAtforkChild.huBypass = true := rfl

end ThreadLocal

/-! ## Processes -/

/-- A thread of a process. -/
abbrev Tid := Nat

/-- A process under the tool. -/
structure Process where
  tool : HuState
  tls : Tid → ThreadLocal

namespace Process

/-- The process after `hu_init`. -/
def start (c : HuConfig) : Process := ⟨huInit c, fun _ => .fresh⟩

/-- Thread `t` changes its thread-local variables. -/
def onThread (t : Tid) (f : ThreadLocal → ThreadLocal) (P : Process) : Process :=
  { P with tls := fun u => if u = t then f (P.tls t) else P.tls u }

/-- The log module runs. -/
def onLog (f : LogState → LogState) (P : Process) : Process :=
  { P with tool := { P.tool with log := f P.tool.log } }

/-- `log_summary` on the state of the process. -/
def logSummary (c : HuConfig) (ondemand : Bool) (order : List HuAllocinfoT) (P : Process) :
    Process :=
  P.onLog (Heapusage.logSummary c.logConfig ondemand (huQuarantineWasEvicted P.tool.mal) order)

end Process

/-- The three phases of `hu_report`, the second with an iteration order of
`allocations`. -/
inductive ReportPhase where
  | disable
  | summary (order : List HuAllocinfoT)
  | enable

/-- The three phases of `hu_fini`; the second is the one under `hu_mutex`. -/
inductive FiniPhase where
  | disable
  | summary (order : List HuAllocinfoT)
  | restore

/-- `hu_report`, run by thread `t`. -/
def huReport (c : HuConfig) (t : Tid) : ReportPhase → Process → Process
  | .disable => fun P => (P.onThread t (·.huSetBypass true)).onLog (logEnable false)
  | .summary order => (·.logSummary c true order)
  | .enable => fun P => (P.onLog (logEnable true)).onThread t (·.huSetBypass false)

/-- `hu_fini`, run by thread `t`, from `log_enable(0)` on; the calls of `free` that
`__libc_freeres()` and `__gnu_cxx::__freeres()` make before are steps of the thread. -/
def huFini (c : HuConfig) (t : Tid) : FiniPhase → Process → Process
  | .disable => fun P => (P.onLog (logEnable false)).onThread t (·.huSetBypass true)
  | .summary order => (·.logSummary c false order)
  | .restore => (·.onThread t (·.huSetBypass false))

/-- A step of a process. -/
inductive Step where
  | call (t : Tid) (call : Call) (env : CallEnv)
  | report (t : Tid) (phase : ReportPhase)
  | fini (t : Tid) (phase : FiniPhase)

/-- The blocks that `__libc_freeres()` and `__gnu_cxx::__freeres()` release. -/
abbrev Freeres := List (Nat × CallEnv)

/-- The whole of `hu_fini`, by a thread that is alone: the blocks of the C library
are released, and the phases follow. -/
def Step.huFini (t : Tid) (frees : Freeres) (order : List HuAllocinfoT) : List Step :=
  frees.map (fun f => .call t (.free f.1) f.2) ++
    [.fini t .disable, .fini t (.summary order), .fini t .restore]

namespace Process

/-- What a wrapper called by thread `t` does and returns. -/
def result (c : HuConfig) (P : Process) (t : Tid) (call : Call) (env : CallEnv) :
    HuState × Nat :=
  wrapper c env (P.tls t) call P.tool

def next (c : HuConfig) (P : Process) : Step → Process
  | .call t call env => { P with tool := (P.result c t call env).1 }
  | .report t phase => huReport c t phase P
  | .fini t phase => huFini c t phase P

/-- The process that called `fork`, when `fork` returns. -/
def atforkParent (t : Tid) (P : Process) : Process :=
  P.onThread t (·.huAtforkPrepare.huAtforkParent)

/-- The child: the forking thread, and a copy of the tool state. -/
def atforkChild (t : Tid) (P : Process) : Process :=
  { P with
    tls := fun u => if u = t then (P.tls t).huAtforkPrepare.huAtforkChild else .fresh }

/-! ## What the steps leave alone -/

variable (c : HuConfig) (t : Tid) (P : Process)

theorem onThread_tls (f : ThreadLocal → ThreadLocal) (u : Tid) :
    (P.onThread t f).tls u = if u = t then f (P.tls t) else P.tls u := rfl

@[simp] theorem onLog_tls (f : LogState → LogState) : (P.onLog f).tls = P.tls := rfl

@[simp] theorem onLog_log (f : LogState → LogState) : (P.onLog f).tool.log = f P.tool.log := rfl

/-- A report changes neither the heap nor the allocator. -/
theorem huReport_heap (phase : ReportPhase) :
    (huReport c t phase P).tool.sys = P.tool.sys ∧
      (huReport c t phase P).tool.mal = P.tool.mal := by
  cases phase <;> exact ⟨rfl, rfl⟩

/-- Nor does `hu_fini`. -/
theorem huFini_heap (phase : FiniPhase) :
    (huFini c t phase P).tool.sys = P.tool.sys ∧ (huFini c t phase P).tool.mal = P.tool.mal := by
  cases phase <;> exact ⟨rfl, rfl⟩

end Process

end Heapusage
