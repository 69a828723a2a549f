/-
Heapusage.Main.Fork — `hu_mutex`, the threads of a process, and forked children.

§1 The machine. Here a tracked wrapper call is three steps: the prologue up to
   `hu_mutex->lock()`, the moment `lock()` returns, and the rest. So is the
   locked part of `hu_fini`. A fork may come at any time between them; the child
   has the forking thread, and a copy of the mutex as it was.
§2 What holds in every process there can be (`Reached`), and that a call whose
   three steps are taken in a row is the call of `Main.Process`.
§3 What a child may do without touching the lock or the books.

Wrapper calls the tool makes for itself are recursive or bypassed; they go to
the C library and are left out, as everywhere. A fault or a fork inside a
wrapper is left to `Main.Control`.
-/
import Heapusage.Main.Process

namespace Heapusage

open Runs

/-! ## §1 Threads and the lock -/

/-- What is done under `hu_mutex`: the body of a wrapper, or the summary at exit. -/
inductive Critical where
  | call (call : Call) (env : CallEnv)
  | summary (order : List HuAllocinfoT)

/-- Where a thread is: in the program, in `hu_mutex->lock()`, or past it. -/
inductive Point where
  | outside
  | waiting (work : Critical)
  | holding (work : Critical)

/-- A process with its threads and its lock. `lockCalls` counts the calls of
`hu_mutex->lock()`. -/
structure Threaded extends Process where
  threads : Tid → Option Point
  huMutex : Option Tid
  lockCalls : Nat

/-- A step of a thread. -/
inductive ThreadStep where
  | call (t : Tid) (call : Call) (env : CallEnv)
  | acquire (t : Tid)
  | leave (t : Tid)
  | report (t : Tid) (order : List HuAllocinfoT)
  | sigHandler (t : Tid) (x : Nat) (callstack : Callstack) (active freed : List HuAllocinfoT)
      (order : List HuAllocinfoT)
  | fini (t : Tid) (order : List HuAllocinfoT)
  | create (t u : Tid)
  | fork (t : Tid)

/-- `hu_report` from beginning to end. -/
def huReportAll (c : HuConfig) (t : Tid) (order : List HuAllocinfoT) (P : Process) : Process :=
  huReport c t .enable (huReport c t (.summary order) (huReport c t .disable P))

/-- `hu_sig_handler` up to its call of `exit`. -/
def huSigHandlerOn (c : HuConfig) (t : Tid) (x : Nat) (callstack : Callstack)
    (active freed : List HuAllocinfoT) (P : Process) : Process :=
  ((P.onThread t (·.huSetBypass true)).onLog
    (huSigHandler c.logConfig x callstack active freed)).onThread t (·.huSetBypass false)

namespace Threaded

/-- The process after `hu_init`, with its first thread. -/
def start (c : HuConfig) : Threaded where
  toProcess := .start c
  threads := fun u => if u = 0 then some .outside else none
  huMutex := none
  lockCalls := 0

/-- Thread `t` is at point `p` from now on. -/
def moveTo (t : Tid) (p : Point) (P : Threaded) : Threaded :=
  { P with threads := fun u => if u = t then some p else P.threads u }

/-- Thread `t` calls `hu_mutex->lock()`. -/
def lock (t : Tid) (work : Critical) (P : Threaded) : Threaded :=
  { P.moveTo t (.waiting work) with lockCalls := P.lockCalls + 1 }

/-- The prologue of a wrapper: past the guards to the lock, or to the C library. -/
def enter (t : Tid) (call : Call) (env : CallEnv) (P : Threaded) : Threaded :=
  if (P.tls t).tracks then
    { P with toProcess := P.toProcess.onThread t (·.guard) }.lock t (.call call env)
  else { P with tool := (libcCall env.ans call P.tool).1 }

/-- `hu_fini` up to the lock. -/
def finalise (c : HuConfig) (t : Tid) (order : List HuAllocinfoT) (P : Threaded) : Threaded :=
  { P with toProcess := huFini c t .disable P.toProcess }.lock t (.summary order)

/-- The work under the lock, and what is left to do after it. -/
def work (c : HuConfig) (t : Tid) : Critical → Process → Process
  | .call call env => fun P =>
      { P with tool := (wrapper c env .fresh call P.tool).1 }.onThread t (·.unguard)
  | .summary order => fun P => huFini c t .restore (huFini c t (.summary order) P)

def next (c : HuConfig) (P : Threaded) : ThreadStep → Threaded
  | .call t call env =>
      match P.threads t with
      | some .outside => P.enter t call env
      | _ => P
  | .acquire t =>
      match P.threads t, P.huMutex with
      | some (.waiting work), none => { P.moveTo t (.holding work) with huMutex := some t }
      | _, _ => P
  | .leave t =>
      match P.threads t with
      | some (.holding work) =>
          { P.moveTo t .outside with
            toProcess := Threaded.work c t work P.toProcess
            huMutex := none }
      | _ => P
  | .report t order =>
      match P.threads t with
      | some _ => { P with toProcess := huReportAll c t order P.toProcess }
      | none => P
  | .sigHandler t x callstack active freed order =>
      match P.threads t with
      | some .outside =>
          { P with toProcess :=
            huSigHandlerOn c t x callstack active freed P.toProcess }.finalise c t order
      | _ => P
  | .fini t order =>
      match P.threads t with
      | some .outside => P.finalise c t order
      | _ => P
  | .create t u =>
      match P.threads t, P.threads u with
      | some .outside, none =>
          { P.moveTo u .outside with toProcess := P.toProcess.onThread u (fun _ => .fresh) }
      | _, _ => P
  | .fork t =>
      match P.threads t with
      | some .outside => { P with toProcess := P.toProcess.atforkParent t }
      | _ => P

/-- The child of a fork by thread `t`. -/
def child (t : Tid) (P : Threaded) : Threaded where
  toProcess := P.toProcess.atforkChild t
  threads := fun u => if u = t then P.threads t else none
  huMutex := P.huMutex
  lockCalls := P.lockCalls

/-- The steps the threads of a process can take. -/
def Runs (P : Threaded) : ThreadStep → Prop
  | .call t _ _ => P.threads t = some .outside
  | .acquire t => P.huMutex = none ∧ ∃ work, P.threads t = some (.waiting work)
  | .leave t => ∃ work, P.threads t = some (.holding work)
  | .report t _ => ∃ p, P.threads t = some p
  | .sigHandler t _ _ _ _ _ => P.threads t = some .outside
  | .fini t _ => P.threads t = some .outside
  | .create t u => P.threads t = some .outside ∧ P.threads u = none
  | .fork t => P.threads t = some .outside

/-- A process that can come about: after `hu_init`, by steps and by forks. -/
inductive Reached (c : HuConfig) : Threaded → Prop
  | start : Reached c (.start c)
  | step {P : Threaded} {i : ThreadStep} : Reached c P → P.Runs i → Reached c (P.next c i)
  | child {P : Threaded} {t : Tid} : Reached c P → P.threads t = some .outside →
      Reached c (P.child t)

end Threaded

/-! ## §2 Every process -/

/-- How deep in wrappers a thread is. -/
def Point.count : Point → Nat
  | .waiting (.call _ _) => 1
  | .holding (.call _ _) => 1
  | _ => 0

namespace Threaded

/-- The call counters say where the threads are, and a thread past the lock holds it. -/
structure Sound (P : Threaded) : Prop where
  count : ∀ t p, P.threads t = some p → (P.tls t).huCallcount = p.count
  mutex : ∀ t work, P.threads t = some (.holding work) → P.huMutex = some t

namespace Sound

variable {c : HuConfig} {P P' : Threaded} {t : Tid}

theorem start : Sound (.start c) := by
  refine ⟨fun u p hp => ?_, fun u work hw => ?_⟩
  · simp only [Threaded.start] at hp
    split at hp
    · cases hp
      rfl
    · cases hp
  · simp only [Threaded.start] at hw
    split at hw <;> cases hw

/-- No thread moves. -/
theorem stay (h : Sound P) (hthreads : P'.threads = P.threads) (hmutex : P'.huMutex = P.huMutex)
    (hcount : ∀ u, (P'.tls u).huCallcount = (P.tls u).huCallcount) : Sound P' := by
  refine ⟨fun u p hp => ?_, fun u work hw => ?_⟩
  · rw [hcount u]
    exact h.count u p (by rwa [hthreads] at hp)
  · rw [hmutex]
    exact h.mutex u work (by rwa [hthreads] at hw)

/-- One thread moves to another point. -/
theorem move (h : Sound P) {p : Point}
    (hthreads : ∀ u, P'.threads u = if u = t then some p else P.threads u)
    (hothers : ∀ u, u ≠ t → (P'.tls u).huCallcount = (P.tls u).huCallcount)
    (hcount : (P'.tls t).huCallcount = p.count)
    (hmutex : ∀ u work, u ≠ t → P.threads u = some (.holding work) → P'.huMutex = some u)
    (hself : ∀ work, p = .holding work → P'.huMutex = some t) : Sound P' := by
  refine ⟨fun u q hq => ?_, fun u work hw => ?_⟩
  · rw [hthreads u] at hq
    by_cases hu : u = t
    · rw [if_pos hu] at hq
      cases hq
      rw [hu, hcount]
    · rw [if_neg hu] at hq
      rw [hothers u hu, h.count u q hq]
  · rw [hthreads u] at hw
    by_cases hu : u = t
    · rw [if_pos hu] at hw
      rw [hu]
      exact hself work (Option.some.inj hw)
    · rw [if_neg hu] at hw
      exact hmutex u work hu hw

/-- `lock()` is called: the thread waits, the mutex stays as it is. -/
theorem lock (h : Sound P) {Q : Process} {work : Critical}
    (hothers : ∀ u, u ≠ t → (Q.tls u).huCallcount = (P.tls u).huCallcount)
    (hcount : (Q.tls t).huCallcount = (Point.waiting work).count) :
    Sound ({ P with toProcess := Q }.lock t work) :=
  h.move (fun _ => rfl) hothers hcount (fun u w _ hw => h.mutex u w hw)
    (fun _ hw => Point.noConfusion hw)

/-- A change of thread `t`'s variables that is not about the counter. -/
theorem onThread_count {f : ThreadLocal → ThreadLocal}
    (hf : ∀ l : ThreadLocal, (f l).huCallcount = l.huCallcount) (t : Tid) (Q : Process) (u : Tid) :
    ((Q.onThread t f).tls u).huCallcount = (Q.tls u).huCallcount := by
  rw [Process.onThread_tls]
  split
  · rename_i hu
    rw [hf, hu]
  · rfl

theorem setBypass_count (bypass : Bool) (t : Tid) (Q : Process) (u : Tid) :
    ((Q.onThread t (·.huSetBypass bypass)).tls u).huCallcount = (Q.tls u).huCallcount :=
  onThread_count (f := (·.huSetBypass bypass)) (fun _ => rfl) t Q u

theorem huFini_count (phase : FiniPhase) (Q : Process) (u : Tid) :
    ((huFini c t phase Q).tls u).huCallcount = (Q.tls u).huCallcount := by
  cases phase with
  | disable => exact setBypass_count true t (Q.onLog (logEnable false)) u
  | summary order => rfl
  | restore => exact setBypass_count false t Q u

theorem huReport_count (phase : ReportPhase) (Q : Process) (u : Tid) :
    ((huReport c t phase Q).tls u).huCallcount = (Q.tls u).huCallcount := by
  cases phase with
  | disable => exact setBypass_count true t Q u
  | summary order => rfl
  | enable => exact setBypass_count false t (Q.onLog (logEnable true)) u

theorem huSigHandlerOn_count (x : Nat) (callstack : Callstack) (active freed : List HuAllocinfoT)
    (Q : Process) (u : Tid) :
    ((huSigHandlerOn c t x callstack active freed Q).tls u).huCallcount =
      (Q.tls u).huCallcount :=
  (setBypass_count false t _ u).trans (setBypass_count true t Q u)

theorem finalise (h : Sound P) (ht : P.threads t = some .outside) (order : List HuAllocinfoT) :
    Sound (P.finalise c t order) := by
  refine h.lock (fun u _ => huFini_count .disable P.toProcess u) ?_
  rw [huFini_count, h.count t _ ht]
  rfl

/-- A wrapper call is guarded, or goes to the C library. -/
theorem enter (h : Sound P) (ht : P.threads t = some .outside) (call : Call) (env : CallEnv) :
    Sound (P.next c (.call t call env)) := by
  simp only [Threaded.next, ht, Threaded.enter]
  split
  · refine h.lock (Q := P.toProcess.onThread t (·.guard)) ?_ ?_
    · intro u hu
      rw [Process.onThread_tls, if_neg hu]
    · rw [Process.onThread_tls, if_pos rfl]
      show (P.tls t).huCallcount + 1 = 1
      rw [h.count t _ ht]
      rfl
  · exact h.stay rfl rfl (fun _ => rfl)

/-- A waiting thread gets the free lock. -/
theorem acquire (h : Sound P) {work : Critical} (hfree : P.huMutex = none)
    (hwait : P.threads t = some (.waiting work)) : Sound (P.next c (.acquire t)) := by
  simp only [Threaded.next, hwait, hfree]
  refine h.move (fun _ => rfl) (fun _ _ => rfl) ?_ ?_ (fun _ _ => rfl)
  · show (P.tls t).huCallcount = _
    rw [h.count t _ hwait]
    cases work <;> rfl
  · intro u w _ hw
    rw [h.mutex u w hw] at hfree
    cases hfree

/-- The holder does its work and gives the lock up. -/
theorem leave (h : Sound P) {work : Critical} (hhold : P.threads t = some (.holding work)) :
    Sound (P.next c (.leave t)) := by
  have hmutex := h.mutex t work hhold
  have hcount := h.count t _ hhold
  simp only [Threaded.next, hhold]
  refine h.move (fun _ => rfl) ?_ ?_ ?_ (fun _ hw => Point.noConfusion hw)
  · intro u hu
    cases work with
    | call call env =>
      show ((Process.onThread t (·.unguard) _).tls u).huCallcount = _
      rw [Process.onThread_tls, if_neg hu]
    | summary order =>
      show ((huFini c t .restore (huFini c t (.summary order) _)).tls u).huCallcount = _
      rw [huFini_count, huFini_count]
  · cases work with
    | call call env =>
      show ((Process.onThread t (·.unguard) _).tls t).huCallcount = 0
      rw [Process.onThread_tls, if_pos rfl]
      show (P.tls t).huCallcount - 1 = 0
      rw [hcount]
      rfl
    | summary order =>
      show ((huFini c t .restore (huFini c t (.summary order) _)).tls t).huCallcount = 0
      rw [huFini_count, huFini_count, hcount]
      rfl
  · intro u w hu hw
    rw [h.mutex u w hw] at hmutex
    exact absurd (Option.some.inj hmutex) hu

/-- A new thread starts outside, with fresh variables. -/
theorem create (h : Sound P) {u : Tid} (ht : P.threads t = some .outside)
    (hu : P.threads u = none) : Sound (P.next c (.create t u)) := by
  simp only [Threaded.next, ht, hu]
  refine h.move (t := u) (fun _ => rfl) ?_ ?_ (fun v w _ hw => h.mutex v w hw)
    (fun _ hw => Point.noConfusion hw)
  · intro v hv
    show ((P.toProcess.onThread u fun _ => .fresh).tls v).huCallcount = _
    rw [Process.onThread_tls, if_neg hv]
  · show ((P.toProcess.onThread u fun _ => .fresh).tls u).huCallcount = 0
    rw [Process.onThread_tls, if_pos rfl]
    rfl

/-- **A step keeps the counters and the lock right.** -/
theorem next (h : Sound P) {i : ThreadStep} (hi : P.Runs i) : Sound (P.next c i) := by
  cases i with
  | call t call env => exact h.enter hi call env
  | acquire t =>
    obtain ⟨hfree, work, hwait⟩ := hi
    exact h.acquire hfree hwait
  | leave t =>
    obtain ⟨work, hhold⟩ := hi
    exact h.leave hhold
  | report t order =>
    obtain ⟨p, hp⟩ := hi
    simp only [Threaded.next, hp]
    refine h.stay rfl rfl fun u => ?_
    show ((huReportAll c t order P.toProcess).tls u).huCallcount = _
    rw [huReportAll, huReport_count, huReport_count, huReport_count]
  | sigHandler t x callstack active freed order =>
    simp only [Threaded.Runs] at hi
    simp only [Threaded.next, hi]
    have hstay : Sound { P with
        toProcess := huSigHandlerOn c t x callstack active freed P.toProcess } :=
      h.stay rfl rfl fun u => huSigHandlerOn_count x callstack active freed P.toProcess u
    exact hstay.finalise hi order
  | fini t order =>
    simp only [Threaded.Runs] at hi
    simp only [Threaded.next, hi]
    exact h.finalise hi order
  | create t u =>
    obtain ⟨ht, hu⟩ := hi
    exact h.create ht hu
  | fork t =>
    simp only [Threaded.Runs] at hi
    simp only [Threaded.next, hi]
    exact h.stay rfl rfl fun u =>
      onThread_count (f := (·.huAtforkPrepare.huAtforkParent)) (fun _ => rfl) t P.toProcess u

/-- So does a fork, in the child. -/
theorem child (h : Sound P) (ht : P.threads t = some .outside) : Sound (P.child t) := by
  refine ⟨fun u p hp => ?_, fun u work hw => ?_⟩
  · simp only [Threaded.child] at hp
    split at hp
    · rename_i hu
      subst hu
      show (if u = u then _ else _ : ThreadLocal).huCallcount = _
      rw [if_pos rfl]
      exact h.count u p hp
    · cases hp
  · simp only [Threaded.child] at hw
    split at hw
    · rw [ht] at hw
      cases hw
    · cases hw

end Sound

theorem Reached.sound {c : HuConfig} {P : Threaded} (h : Reached c P) : Sound P := by
  induction h with
  | start => exact Sound.start
  | step _ hi ih => exact ih.next hi
  | child _ ht ih => exact ih.child ht

theorem Reached.run {c : HuConfig} (is : List ThreadStep) {P : Threaded} (h : Reached c P)
    (hrun : Along (next c) Runs P is) : Reached c (exec (next c) P is) :=
  Along.invariant (fun _ _ hP hi => Reached.step hP hi) is P h hrun

/-- **Mutual exclusion**, in every process: at most one thread is past the lock. -/
theorem Reached.exclusive {c : HuConfig} {P : Threaded} (h : Reached c P) {t u : Tid}
    {work work' : Critical} (ht : P.threads t = some (.holding work))
    (hu : P.threads u = some (.holding work')) : t = u := by
  have hmutex := h.sound.mutex t work ht
  rw [h.sound.mutex u work' hu] at hmutex
  exact (Option.some.inj hmutex).symm

/-- The steps of a wrapper call that meets a free lock. -/
def callSteps (t : Tid) (call : Call) (env : CallEnv) (P : Threaded) : List ThreadStep :=
  .call t call env :: if (P.tls t).tracks then [.acquire t, .leave t] else []

/-- Taken in a row they are the one step of `Main.Process`. -/
theorem callSteps_exec (c : HuConfig) {P : Threaded} {t : Tid} (ht : P.threads t = some .outside)
    (hfree : P.huMutex = none) (call : Call) (env : CallEnv) :
    (exec (next c) P (P.callSteps t call env)).toProcess =
      P.toProcess.next c (.call t call env) := by
  unfold callSteps
  cases htracks : (P.tls t).tracks with
  | false =>
    have hresult : P.result c t call env = libcCall env.ans call P.tool := by
      rw [Process.result, wrapper_eq, htracks, if_neg Bool.false_ne_true]
    simp only [Bool.false_eq_true, if_false, exec_cons, exec_nil, next, ht, enter, htracks,
      Process.next, hresult]
  | true =>
    have hresult : P.result c t call env = wrapper c env .fresh call P.tool := by
      rw [Process.result, wrapper_eq, htracks, if_pos rfl, tracked_eq]
    have henter : next c P (.call t call env) =
        { P with toProcess := P.toProcess.onThread t (·.guard) }.lock t (.call call env) := by
      simp only [next, ht, enter, htracks, if_true]
    rw [if_pos rfl, exec_cons, henter]
    simp only [exec_cons, exec_nil, next, lock, moveTo, if_true, hfree, work]
    refine congrArg₂ Process.mk (congrArg Prod.fst hresult.symm) (funext fun u => ?_)
    by_cases hu : u = t
    · simp only [hu, if_true, Process.onThread_tls]
      rfl
    · simp only [hu, if_false, Process.onThread_tls]

/-! ## §3 A forked child -/

/-- The step calls no `lock()` and leaves the books alone. -/
def Untouched (c : HuConfig) (P : Threaded) (i : ThreadStep) : Prop :=
  (P.next c i).lockCalls = P.lockCalls ∧ (P.next c i).tool.log.accounts = P.tool.log.accounts

end Threaded

/-- What a child may do. `t` is the thread that forked, and `armed` says that
it has not run `hu_report` since. -/
def ThreadStep.Allowed (t : Tid) (armed : Bool) : ThreadStep → Prop
  | .call u _ _ => u = t ∧ armed = true
  | .sigHandler _ _ _ _ _ _ => False
  | .fini _ _ => False
  | _ => True

/-- Is the thread still armed after the step? -/
def ThreadStep.armedAfter (t : Tid) (armed : Bool) : ThreadStep → Bool
  | .report u _ => armed && decide (u ≠ t)
  | _ => armed

/-- A run of the child in which only the thread that forked calls a wrapper,
and only before a report of its own, and nobody exits. -/
def KeepsOff (t : Tid) : Bool → List ThreadStep → Prop
  | _, [] => True
  | armed, i :: is => i.Allowed t armed ∧ KeepsOff t (i.armedAfter t armed) is

/-- The child's threads are all in the program; the one that forked is bypassed
as long as it is armed, the others are not. -/
structure Threaded.Aside (t : Tid) (armed : Bool) (P : Threaded) : Prop where
  here : P.threads t = some .outside
  outside : ∀ u p, P.threads u = some p → p = .outside
  count : ∀ u p, P.threads u = some p → (P.tls u).huCallcount = 0
  bypass : ∀ u p, P.threads u = some p → (P.tls u).huBypass = (armed && decide (u = t))

theorem huReportAll_accounts (c : HuConfig) (t : Tid) (order : List HuAllocinfoT) (P : Process) :
    (huReportAll c t order P).tool.log.accounts = P.tool.log.accounts := by
  simp only [huReportAll, huReport, Process.logSummary, Process.onLog, Process.onThread, logSummary]
  split <;> rfl

theorem huReportAll_bypass (c : HuConfig) (t : Tid) (order : List HuAllocinfoT) (P : Process)
    (u : Tid) :
    ((huReportAll c t order P).tls u).huBypass = if u = t then false else (P.tls u).huBypass := by
  simp only [huReportAll, huReport, Process.logSummary, Process.onLog, Process.onThread]
  split <;> rfl

namespace Threaded.Aside

variable {c : HuConfig} {t : Tid} {armed : Bool} {P : Threaded} {i : ThreadStep}

theorem child (h : Sound P) (ht : P.threads t = some .outside) : Aside t true (P.child t) := by
  have hchild : ∀ u p, (P.child t).threads u = some p → u = t ∧ p = .outside := by
    intro u p hp
    simp only [Threaded.child] at hp
    split at hp
    · rename_i hu
      rw [ht] at hp
      exact ⟨hu, (Option.some.inj hp).symm⟩
    · cases hp
  have htls : (P.child t).tls t = (P.tls t).huAtforkPrepare.huAtforkChild := if_pos rfl
  refine ⟨?_, fun u p hp => (hchild u p hp).2, fun u p hp => ?_, fun u p hp => ?_⟩
  · show (if t = t then P.threads t else none) = _
    rw [if_pos rfl, ht]
  · rw [(hchild u p hp).1, htls]
    exact h.count t _ ht
  · rw [(hchild u p hp).1, htls]
    simp [ThreadLocal.huAtforkChild_prepare]

/-- A wrapper call that is allowed goes to the C library, any other locks. -/
theorem call_tracks (h : Aside t armed P) {u : Tid} (hu : P.threads u = some .outside) :
    (P.tls u).tracks = !(armed && decide (u = t)) := by
  rw [ThreadLocal.tracks_eq, h.bypass u _ hu, h.count u _ hu]
  simp

/-- Every call of `lock()` is a touch. -/
theorem lock_touches {u : Tid} {work : Critical} {P' : Threaded} (hP : P'.lockCalls = P.lockCalls) :
    (P'.lock u work).lockCalls ≠ P.lockCalls := by
  show P'.lockCalls + 1 ≠ P.lockCalls
  omega

/-- **A step that is not allowed touches.** -/
theorem allowed (h : Aside t armed P) (hi : P.Runs i) (hu : P.Untouched c i) :
    i.Allowed t armed := by
  have hlock := hu.1
  cases i with
  | call u call env =>
    simp only [Threaded.Runs] at hi
    simp only [Threaded.next, hi, Threaded.enter, h.call_tracks hi] at hlock
    cases harmed : (armed && decide (u = t)) with
    | true =>
      obtain ⟨ha, hut⟩ := Bool.and_eq_true_iff.mp harmed
      exact ⟨of_decide_eq_true hut, ha⟩
    | false =>
      rw [harmed] at hlock
      exact absurd hlock (lock_touches rfl)
  | sigHandler u x callstack active freed order =>
    simp only [Threaded.Runs] at hi
    simp only [Threaded.next, hi] at hlock
    exact absurd hlock (lock_touches rfl)
  | fini u order =>
    simp only [Threaded.Runs] at hi
    simp only [Threaded.next, hi] at hlock
    exact absurd hlock (lock_touches rfl)
  | acquire u => trivial
  | leave u => trivial
  | report u order => trivial
  | create u v => trivial
  | fork u => trivial

/-- A report in the child: the thread that makes it is not bypassed any more. -/
theorem next_report (h : Aside t armed P) {u : Tid} {p : Point} (hp : P.threads u = some p)
    (order : List HuAllocinfoT) :
    P.Untouched c (.report u order) ∧
      Aside t ((ThreadStep.report u order).armedAfter t armed) (P.next c (.report u order)) := by
  have hnext : P.next c (.report u order) =
      { P with toProcess := huReportAll c u order P.toProcess } := by
    simp only [Threaded.next, hp]
  refine ⟨⟨?_, ?_⟩, ?_⟩
  · rw [hnext]
  · rw [hnext]
    exact huReportAll_accounts c u order P.toProcess
  · rw [hnext]
    refine ⟨h.here, h.outside, fun v q hq => ?_, fun v q hq => ?_⟩
    · show ((huReportAll c u order P.toProcess).tls v).huCallcount = 0
      rw [huReportAll, Sound.huReport_count, Sound.huReport_count, Sound.huReport_count]
      exact h.count v q hq
    · show ((huReportAll c u order P.toProcess).tls v).huBypass = _
      rw [huReportAll_bypass, h.bypass v q hq]
      simp only [ThreadStep.armedAfter]
      by_cases hvt : v = t
      · subst hvt
        by_cases hvu : v = u
        · simp [hvu]
        · simp [hvu, Ne.symm hvu]
      · simp [hvt]

/-- A new thread in the child, which is not bypassed. -/
theorem next_create (h : Aside t armed P) {u v : Tid} (hu : P.threads u = some .outside)
    (hv : P.threads v = none) :
    P.Untouched c (.create u v) ∧ Aside t armed (P.next c (.create u v)) := by
  have hvt : v ≠ t := by
    intro heq
    rw [heq, h.here] at hv
    cases hv
  have hnext : P.next c (.create u v) =
      { P.moveTo v .outside with
        toProcess := P.toProcess.onThread v (fun _ => .fresh) } := by
    simp only [Threaded.next, hu, hv]
  have hthreads : ∀ w p, (P.next c (.create u v)).threads w = some p →
      (w = v ∧ p = .outside) ∨ (w ≠ v ∧ P.threads w = some p) := by
    intro w p hw
    rw [hnext] at hw
    simp only [moveTo] at hw
    split at hw
    · rename_i hwv
      exact .inl ⟨hwv, (Option.some.inj hw).symm⟩
    · rename_i hwv
      exact .inr ⟨hwv, hw⟩
  have htls : ∀ w, (P.next c (.create u v)).tls w = if w = v then .fresh else P.tls w := by
    intro w
    rw [hnext]
    rfl
  refine ⟨⟨?_, ?_⟩, ?_⟩
  · rw [hnext]
    rfl
  · rw [hnext]
    rfl
  · refine ⟨?_, fun w p hw => ?_, fun w p hw => ?_, fun w p hw => ?_⟩
    · rw [hnext]
      simp only [moveTo, Ne.symm hvt, if_false]
      exact h.here
    · rcases hthreads w p hw with ⟨-, hp⟩ | ⟨-, hp⟩
      · exact hp
      · exact h.outside w p hp
    · rw [htls]
      rcases hthreads w p hw with ⟨hwv, -⟩ | ⟨hwv, hp⟩
      · rw [if_pos hwv]
        rfl
      · rw [if_neg hwv]
        exact h.count w p hp
    · rw [htls]
      rcases hthreads w p hw with ⟨hwv, -⟩ | ⟨hwv, hp⟩
      · rw [if_pos hwv, hwv]
        simp [hvt, ThreadLocal.fresh]
      · rw [if_neg hwv]
        exact h.bypass w p hp

/-- A fork in the child leaves its threads as they are. -/
theorem next_fork (h : Aside t armed P) {u : Tid} (hu : P.threads u = some .outside) :
    P.Untouched c (.fork u) ∧ Aside t armed (P.next c (.fork u)) := by
  have hnext : P.next c (.fork u) = { P with toProcess := P.toProcess.atforkParent u } := by
    simp only [Threaded.next, hu]
  have hbypass : ∀ v, ((P.toProcess.atforkParent u).tls v).huBypass = (P.tls v).huBypass := by
    intro v
    rw [Process.atforkParent, Process.onThread_tls]
    split
    · rename_i hvu
      rw [ThreadLocal.huAtforkParent_prepare, hvu]
    · rfl
  refine ⟨⟨?_, ?_⟩, ?_⟩
  · rw [hnext]
  · rw [hnext]
    rfl
  · rw [hnext]
    refine ⟨h.here, h.outside, fun v p hp => ?_, fun v p hp => ?_⟩
    · refine (Sound.onThread_count (f := (·.huAtforkPrepare.huAtforkParent)) (fun _ => rfl)
        u P.toProcess v).trans ?_
      exact h.count v p hp
    · exact (hbypass v).trans (h.bypass v p hp)

/-- **A step that is allowed does not**, and the threads are as before. -/
theorem next (h : Aside t armed P) (hi : P.Runs i) (hallowed : i.Allowed t armed) :
    P.Untouched c i ∧ Aside t (i.armedAfter t armed) (P.next c i) := by
  cases i with
  | call u call env =>
    have htracks : (P.tls u).tracks = false := by
      rw [h.call_tracks hi, hallowed.1, hallowed.2]
      simp
    have hnext : P.next c (.call u call env) =
        { P with tool := (libcCall env.ans call P.tool).1 } := by
      simp only [Threaded.Runs] at hi
      simp only [Threaded.next, hi, Threaded.enter, htracks, Bool.false_eq_true, if_false]
    refine ⟨⟨?_, ?_⟩, ?_⟩
    · rw [hnext]
    · rw [hnext]
      simp only [libcCall_log]
    · rw [hnext]
      exact ⟨h.here, h.outside, h.count, h.bypass⟩
  | acquire u =>
    obtain ⟨-, work, hw⟩ := hi
    exact Point.noConfusion (h.outside u _ hw)
  | leave u =>
    obtain ⟨work, hw⟩ := hi
    exact Point.noConfusion (h.outside u _ hw)
  | report u order =>
    obtain ⟨p, hp⟩ := hi
    exact h.next_report hp order
  | sigHandler u x callstack active freed order => exact absurd hallowed id
  | fini u order => exact absurd hallowed id
  | create u v => exact h.next_create hi.1 hi.2
  | fork u => exact h.next_fork hi

end Threaded.Aside

/-- **What leaves the lock and the books of a child alone**: for every process
there can be and every run of a child of it, no step locks or changes the books
if and only if the run keeps off. -/
theorem child_untouched_iff (c : HuConfig) {P : Threaded} (hP : P.Reached c) {t : Tid}
    (ht : P.threads t = some .outside) (is : List ThreadStep)
    (hrun : Along (Threaded.next c) Threaded.Runs (P.child t) is) :
    Along (Threaded.next c) (Threaded.Untouched c) (P.child t) is ↔ KeepsOff t true is := by
  have hmain : ∀ (is : List ThreadStep) (armed : Bool) (Q : Threaded), Q.Aside t armed →
      Along (Threaded.next c) Threaded.Runs Q is →
      (Along (Threaded.next c) (Threaded.Untouched c) Q is ↔ KeepsOff t armed is) := by
    intro is
    induction is with
    | nil => intro armed Q _ _; exact Iff.rfl
    | cons i is ih =>
      intro armed Q hQ ⟨hi, hrest⟩
      constructor
      · intro ⟨hu, huntouched⟩
        have hallowed := hQ.allowed hi hu
        exact ⟨hallowed, (ih _ _ (hQ.next hi hallowed).2 hrest).mp huntouched⟩
      · intro ⟨hallowed, hkeeps⟩
        obtain ⟨hu, hnext⟩ := hQ.next hi hallowed
        exact ⟨hu, (ih _ _ hnext hrest).mpr hkeeps⟩
  exact hmain is true _ (Threaded.Aside.child hP.sound ht) hrun

/-- Thread 1 is in a wrapper, past the lock, when thread 0 forks. -/
def forkedInWrapper : Threaded :=
  exec (Threaded.next (.tools false false false 0)) (.start (.tools false false false 0))
    [.create 0 1, .call 1 (.malloc 8) (.answering 8192), .acquire 1]

theorem forkedInWrapper_reached :
    forkedInWrapper.Reached (.tools false false false 0) := by
  refine Threaded.Reached.run _ .start ⟨⟨rfl, rfl⟩, rfl, ⟨rfl, ?_⟩, trivial⟩
  exact ⟨.call (.malloc 8) (.answering 8192), rfl⟩

/-- The child calls wrappers, forks, and starts a thread that asks for a report. -/
theorem child_untouched_iff_bypassed :
    Along (Threaded.next (.tools false false false 0))
      (Threaded.Untouched (.tools false false false 0)) (forkedInWrapper.child 0)
      [.call 0 (.malloc 8) (.answering 12288), .fork 0, .create 0 2, .report 2 [],
        .call 0 (.free 12288) (.answering 0)] := by
  refine (child_untouched_iff (.tools false false false 0) forkedInWrapper_reached (t := 0) rfl
    [.call 0 (.malloc 8) (.answering 12288), .fork 0, .create 0 2, .report 2 [],
      .call 0 (.free 12288) (.answering 0)]
    ⟨rfl, rfl, ⟨rfl, rfl⟩, ⟨.outside, rfl⟩, rfl, trivial⟩).mpr ?_
  exact ⟨⟨rfl, rfl⟩, trivial, trivial, trivial, ⟨rfl, rfl⟩, trivial⟩

/-- A child that exits calls `lock()`. -/
theorem child_exit_locks :
    Along (Threaded.next (.tools false false false 0)) Threaded.Runs (forkedInWrapper.child 0)
        [.fini 0 []] ∧
      ¬ Along (Threaded.next (.tools false false false 0))
        (Threaded.Untouched (.tools false false false 0)) (forkedInWrapper.child 0)
        [.fini 0 []] :=
  ⟨⟨rfl, trivial⟩, fun h => absurd h.1.1 (by decide)⟩

/-- `u` holds the lock and is not there to release it. -/
structure Threaded.Lost (u : Tid) (P : Threaded) : Prop where
  mutex : P.huMutex = some u
  gone : ∀ v work, P.threads v ≠ some (.holding work)

namespace Threaded.Lost

variable {c : HuConfig} {u : Tid} {P P' : Threaded} {i : ThreadStep}

/-- A thread moves, but not past the lock. -/
theorem move (h : Lost u P) (hmutex : P'.huMutex = P.huMutex) {t : Tid} {p : Point}
    (hp : ∀ work, p ≠ .holding work)
    (hthreads : ∀ v, P'.threads v = if v = t then some p else P.threads v) : Lost u P' := by
  refine ⟨hmutex.trans h.mutex, fun v work hv => ?_⟩
  rw [hthreads v] at hv
  split at hv
  · exact hp work (Option.some.inj hv)
  · exact h.gone v work hv

theorem next (h : Lost u P) (hi : P.Runs i) : Lost u (P.next c i) := by
  have hwaiting : ∀ work work', Point.waiting work ≠ .holding work' := fun _ _ => Point.noConfusion
  cases i with
  | call t call env =>
    simp only [Threaded.Runs] at hi
    simp only [Threaded.next, hi, Threaded.enter]
    split
    · exact h.move rfl (hwaiting _) (fun _ => rfl)
    · exact ⟨h.mutex, h.gone⟩
  | acquire t =>
    have hfree : P.huMutex = none := hi.1
    rw [h.mutex] at hfree
    cases hfree
  | leave t =>
    obtain ⟨work, hw⟩ := hi
    exact absurd hw (h.gone t work)
  | report t order =>
    obtain ⟨p, hp⟩ := hi
    simp only [Threaded.next, hp]
    exact ⟨h.mutex, h.gone⟩
  | sigHandler t x callstack active freed order =>
    simp only [Threaded.Runs] at hi
    simp only [Threaded.next, hi]
    exact h.move rfl (hwaiting _) (fun _ => rfl)
  | fini t order =>
    simp only [Threaded.Runs] at hi
    simp only [Threaded.next, hi]
    exact h.move rfl (hwaiting _) (fun _ => rfl)
  | create t v =>
    obtain ⟨ht, hv⟩ := hi
    simp only [Threaded.next, ht, hv]
    exact h.move rfl (fun _ => Point.noConfusion) (fun _ => rfl)
  | fork t =>
    simp only [Threaded.Runs] at hi
    simp only [Threaded.next, hi]
    exact ⟨h.mutex, h.gone⟩

end Threaded.Lost

/-- **A lock held at the fork is lost**: if a thread held it, no thread of the
child ever gets past `lock()`. -/
theorem child_lock_lost (c : HuConfig) {P : Threaded} {t u : Tid}
    (ht : P.threads t = some .outside) (hu : P.huMutex = some u) (is : List ThreadStep)
    (hrun : Along (Threaded.next c) Threaded.Runs (P.child t) is) :
    Threaded.Lost u (exec (Threaded.next c) (P.child t) is) := by
  refine Along.invariant (fun _ _ h hi => Threaded.Lost.next h hi) is _ ⟨hu, ?_⟩ hrun
  intro v work hv
  simp only [Threaded.child] at hv
  split at hv
  · rw [ht] at hv
    cases hv
  · cases hv

end Heapusage
