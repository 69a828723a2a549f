/-
Heapusage.Main.Reporting — on-demand reports next to other threads.

`hu_report` switches the global logging flag off and on again without taking
`hu_mutex`. What another thread does in between is not logged. §1–§3 compare a
run with the same run without its reports: the two states agree in all but the
flag and the log file (`HuState.Agrees`) as long as nothing that was dropped
would have changed the books (`Call.Quiet`).

§1 The books: the log state without the flag and the file.
§2 The allocator half does not look at them.
§3 Runs with and without reports.
-/
import Heapusage.Main.Process

namespace Heapusage

open Runs Tables

/-! ## §1 The books -/

/-- The log state with the logging flag and the log file put aside. -/
def LogState.books (l : LogState) : LogState := { l with loggingEnabled := true, logFile := [] }

section Books

variable (c : LogConfig) (q n : Nat) (cs : Callstack) {l l' : LogState}

theorem logMalloc_books : (logMalloc c q n cs l).books = logMalloc c q n cs l.books := by
  unfold logMalloc
  simp only
  split <;> split <;> rfl

/-- A step that is left out once something was thrown. -/
theorem books_guarded {f : LogState → LogState} (hf : ∀ l, (f l).books = (f l.books).books)
    (h : l.books = l'.books) :
    (if l.uncaught then l else f l).books = (if l'.uncaught then l' else f l').books := by
  have huncaught : l.books.uncaught = l'.books.uncaught := by rw [h]
  replace huncaught : l.uncaught = l'.uncaught := huncaught
  rw [huncaught]
  split
  · exact h
  · rw [hf, h, ← hf]

theorem invalidDealloc_books (block : HuAllocinfoT) :
    (invalidDealloc c q block cs l).books = (invalidDealloc c q block cs l.books).books := by
  unfold invalidDealloc
  refine books_guarded (f := fun l => { l with freedAllocations := l.freedAllocations.erase q })
    (fun _ => rfl) ?_
  simp only
  split
  · split <;> rfl
  · rfl

theorem logFreeTables_books :
    (logFreeTables c q cs l).books = (logFreeTables c q cs l.books).books := by
  have hlisted : l.books.allocations = l.allocations := rfl
  have hfreed : l.books.freedAllocations = l.freedAllocations := rfl
  unfold logFreeTables
  rw [hlisted, hfreed]
  cases l.allocations.lookup q with
  | some info => rfl
  | none =>
    simp only
    split
    · cases l.freedAllocations.lookup q with
      | some block => exact invalidDealloc_books c q cs block
      | none => rfl
    · rfl

theorem logFree_books : (logFree c q cs l).books = (logFree c q cs l.books).books := by
  rw [logFree_eq, logFree_eq]
  exact books_guarded
    (f := fun l => { l with allocinfoTotalFrees := l.allocinfoTotalFrees + 1 })
    (fun _ => rfl) (logFreeTables_books c q cs)

/-- An event on books that agree, logging on for both. -/
theorem logEvent_books (event : Event) (h : l.books = l'.books) (hon : l.loggingEnabled = true)
    (hon' : l'.loggingEnabled = true) :
    (logEvent c event q n cs l).books = (logEvent c event q n cs l').books := by
  unfold logEvent
  rw [if_pos hon, if_pos hon']
  cases event with
  | malloc =>
    simp only
    rw [logMalloc_books, h, ← logMalloc_books]
  | free =>
    simp only
    rw [logFree_books, h, ← logFree_books]

theorem logEvents_books (e : CallEnv) (call : Call) (h : l.books = l'.books)
    (hon : l.loggingEnabled = true) (hon' : l'.loggingEnabled = true) :
    (logEvents c e q call l).books = (logEvents c e q call l').books := by
  have hfree : (freeEvent c e call l).books = (freeEvent c e call l').books := by
    unfold freeEvent
    cases call.frees with
    | none => exact h
    | some p => exact logEvent_books c p 0 e.freeStack .free h hon hon'
  unfold logEvents allocEvent
  cases call.allocs with
  | none => exact hfree
  | some size =>
    exact logEvent_books c q size e.allocStack .malloc hfree (by rw [freeEvent_enabled, hon])
      (by rw [freeEvent_enabled, hon'])

end Books

/-- The events of a call that returned `q` do not change the books: it frees
nothing, and what it allocates is below the minimum size and has no freed record. -/
def Call.Quiet (c : LogConfig) (q : Nat) (l : LogState) (call : Call) : Prop :=
  call.frees = none ∧
    ∀ n ∈ call.allocs, n < c.huLogMinleak ∧ (c.keepsFreed = true → q ∉ l.freedAllocations)

instance Call.decidableQuiet (c : LogConfig) (q : Nat) (l : LogState) (call : Call) :
    Decidable (call.Quiet c q l) :=
  inferInstanceAs (Decidable (_ ∧ _))

theorem Call.Quiet.logEvents_eq {c : LogConfig} {e : CallEnv} {q : Nat} {l : LogState}
    {call : Call} (h : call.Quiet c q l) : logEvents c e q call l = l := by
  obtain ⟨hfrees, hallocs⟩ := h
  rw [logEvents, freeEvent_of_none _ _ _ _ hfrees]
  unfold allocEvent
  cases hal : call.allocs with
  | none => rfl
  | some n =>
    obtain ⟨hsmall, hfreed⟩ := hallocs n hal
    simp only [logEvent]
    rw [logMalloc_small c q n e.allocStack l (Nat.not_le.mpr hsmall)]
    split
    · split
      · rename_i hkeep
        rw [erase_of_not_mem (hfreed hkeep)]
      · rfl
    · rfl

theorem Call.Quiet.of_offered {c : HuConfig} {ans : SysAns} {s : HuState} {call : Call}
    (h : call.Quiet c.logConfig (call.offered c ans s) s.log) :
    call.Quiet c.logConfig (allocHalf c ans call s).2 s.log := by
  refine ⟨h.1, fun n hn => ?_⟩
  have hreq : call.requested ≠ 0 := by
    intro hzero
    rw [Call.allocs_eq_none.mpr hzero] at hn
    cases hn
  have hsmall : call.logged < c.huMinsize := by
    rw [Call.logged, hn]
    exact (h.2 n hn).1
  rw [allocHalf_small_result h.1 hreq hsmall]
  exact h.2 n hn

/-! ## §2 The allocator half -/

/-- Two states that agree in all but the logging flag and the log file. -/
structure HuState.Agrees (s s' : HuState) : Prop where
  sys : s.sys = s'.sys
  mal : s.mal = s'.mal
  books : s.log.books = s'.log.books

namespace HuState.Agrees

variable {s s' : HuState} (c : MallocConfig) (lc : LogConfig) (ans : SysAns)

/-- The second state is the first with another log. -/
theorem eq_withLog (h : s.Agrees s') : s' = { s with log := s'.log } := by
  obtain ⟨sys, mal, log⟩ := s
  obtain ⟨sys', mal', log'⟩ := s'
  have hsys : sys = sys' := h.sys
  have hmal : mal = mal' := h.mal
  rw [hsys, hmal]

theorem libcCall (h : s.Agrees s') (call : Call) :
    (Heapusage.libcCall ans call s).1.Agrees (Heapusage.libcCall ans call s').1 ∧
      (Heapusage.libcCall ans call s).2 = (Heapusage.libcCall ans call s').2 := by
  rw [h.eq_withLog]
  cases call <;> exact ⟨⟨rfl, rfl, h.books⟩, rfl⟩

theorem huMalloc (h : s.Agrees s') (n : Nat) :
    (Heapusage.huMalloc c ans n s).1.Agrees (Heapusage.huMalloc c ans n s').1 ∧
      (Heapusage.huMalloc c ans n s).2 = (Heapusage.huMalloc c ans n s').2 := by
  rw [h.eq_withLog]
  unfold Heapusage.huMalloc
  simp only
  split
  · exact ⟨⟨rfl, rfl, h.books⟩, rfl⟩
  · split
    · exact ⟨⟨rfl, rfl, h.books⟩, rfl⟩
    · split
      · exact ⟨⟨rfl, rfl, h.books⟩, rfl⟩
      · split
        · exact ⟨⟨rfl, rfl, h.books⟩, rfl⟩
        · cases c.huOverflow <;> exact ⟨⟨rfl, rfl, h.books⟩, rfl⟩

theorem evictFront (h : s.Agrees s') (info : HuAllocInfo) :
    (Heapusage.evictFront c lc ans info s).Agrees (Heapusage.evictFront c lc ans info s') := by
  rw [h.eq_withLog]
  refine ⟨rfl, rfl, ?_⟩
  have hremove : ∀ l : LogState, (huLogRemoveFreedAllocation lc info.userPtr l).books =
      huLogRemoveFreedAllocation lc info.userPtr l.books := by
    intro l
    unfold huLogRemoveFreedAllocation
    split <;> rfl
  rw [evictFront_log, evictFront_log, hremove, hremove, h.books]

theorem evictLoop (q : List HuAllocInfo) : ∀ {s s' : HuState}, s.Agrees s' →
    (Heapusage.evictLoop c lc ans q s).Agrees (Heapusage.evictLoop c lc ans q s') := by
  induction q with
  | nil => intro s s' h; exact h
  | cons info rest ih =>
    intro s s' h
    unfold Heapusage.evictLoop
    rw [h.mal]
    split
    · exact ih (h.evictFront c lc ans info)
    · exact h

theorem huFree (h : s.Agrees s') (p : Nat) :
    (Heapusage.huFree c lc ans p s).Agrees (Heapusage.huFree c lc ans p s') := by
  rw [h.eq_withLog]
  unfold Heapusage.huFree
  simp only
  split
  · exact ⟨rfl, rfl, h.books⟩
  · split
    · exact ⟨rfl, rfl, h.books⟩
    · split
      · exact ⟨rfl, rfl, h.books⟩
      · split
        · exact ⟨rfl, rfl, h.books⟩
        · split
          · exact evictLoop c lc ans _ ⟨rfl, rfl, h.books⟩
          · exact ⟨rfl, rfl, h.books⟩

theorem huCalloc (h : s.Agrees s') (count size : Nat) :
    (Heapusage.huCalloc c ans count size s).1.Agrees (Heapusage.huCalloc c ans count size s').1 ∧
      (Heapusage.huCalloc c ans count size s).2 = (Heapusage.huCalloc c ans count size s').2 := by
  have hmalloc := h.huMalloc c ans (Words.mul 64 count size)
  unfold Heapusage.huCalloc
  simp only
  rw [← h.mal]
  split
  · exact h.libcCall ans (.calloc count size)
  · split
    · exact h.libcCall ans (.calloc count size)
    · split
      · exact ⟨h, rfl⟩
      · rw [← hmalloc.2]
        split
        · refine ⟨⟨?_, hmalloc.1.mal, hmalloc.1.books⟩, rfl⟩
          simp only [hmalloc.1.sys]
        · exact ⟨hmalloc.1, hmalloc.2⟩

theorem huRealloc (h : s.Agrees s') (p n : Nat) :
    (Heapusage.huRealloc c lc ans p n s).1.Agrees (Heapusage.huRealloc c lc ans p n s').1 ∧
      (Heapusage.huRealloc c lc ans p n s).2 = (Heapusage.huRealloc c lc ans p n s').2 := by
  have hmalloc := h.huMalloc c ans n
  unfold Heapusage.huRealloc
  simp only
  rw [← h.mal]
  split
  · exact h.libcCall ans (.realloc p n)
  · split
    · exact hmalloc
    · split
      · exact ⟨h.huFree c lc ans p, rfl⟩
      · split
        · refine ⟨?_, hmalloc.2⟩
          rw [← hmalloc.2]
          refine huFree c lc ans ?_ p
          split
          · refine ⟨?_, hmalloc.1.mal, hmalloc.1.books⟩
            simp only [hmalloc.1.sys]
          · exact hmalloc.1
        · exact h.libcCall ans (.realloc p n)

/-- **The allocator half does not look at the flag or the file.** -/
theorem allocHalf (c : HuConfig) (h : s.Agrees s') (call : Call) :
    (Heapusage.allocHalf c ans call s).1.Agrees (Heapusage.allocHalf c ans call s').1 ∧
      (Heapusage.allocHalf c ans call s).2 = (Heapusage.allocHalf c ans call s').2 := by
  unfold Heapusage.allocHalf
  split
  · cases call with
    | malloc size => exact h.huMalloc _ ans size
    | free ptr => exact ⟨h.huFree _ _ ans ptr, rfl⟩
    | calloc nmemb size => exact h.huCalloc _ ans nmemb size
    | realloc ptr size => exact h.huRealloc _ _ ans ptr size
  · exact h.libcCall ans call

end HuState.Agrees

/-! ## §3 Runs with and without reports -/

/-- A step of `hu_report`. -/
def Step.isReport : Step → Bool
  | .report _ _ => true
  | _ => false

/-- The runs considered: calls and reports, and a thread that is in the middle
of a report makes no call of its own. -/
def Process.Sequential (P : Process) : Step → Prop
  | .call t _ _ => (P.tls t).huBypass = false
  | .report _ _ => True
  | .fini _ _ => False

/-- A call made while logging is off has no event that changes the books. -/
def Process.Undropped (c : HuConfig) (P : Process) : Step → Prop
  | .call _ call env => P.tool.log.loggingEnabled = true ∨
      call.Quiet c.logConfig (call.offered c env.ans P.tool) P.tool.log
  | _ => True

instance (P : Process) : DecidablePred P.Sequential
  | .call t _ _ => inferInstanceAs (Decidable ((P.tls t).huBypass = false))
  | .report _ _ => inferInstanceAs (Decidable True)
  | .fini _ _ => inferInstanceAs (Decidable False)

instance (c : HuConfig) (P : Process) : DecidablePred (P.Undropped c)
  | .call _ _ _ => inferInstanceAs (Decidable (_ ∨ _))
  | .report _ _ => inferInstanceAs (Decidable True)
  | .fini _ _ => inferInstanceAs (Decidable True)

/-- A run with reports and the run without: the tool states agree, in the
second logging is on, and no thread of it is ever bypassed. -/
structure Process.Unreported (P Q : Process) : Prop where
  agrees : P.tool.Agrees Q.tool
  logging : Q.tool.log.loggingEnabled = true
  count : ∀ t, (P.tls t).huCallcount = 0
  fresh : ∀ t, Q.tls t = .fresh

namespace Process.Unreported

variable {c : HuConfig} {P Q : Process}

theorem start : Unreported (.start c) (.start c) :=
  ⟨⟨rfl, rfl, rfl⟩, rfl, fun _ => rfl, fun _ => rfl⟩

/-- A call is taken by both runs. -/
theorem call (h : Unreported P Q) (t : Tid) (call : Call) (env : CallEnv)
    (hseq : P.Sequential (.call t call env)) (hquiet : P.Undropped c (.call t call env)) :
    Unreported (P.next c (.call t call env)) (Q.next c (.call t call env)) := by
  have htracks : (P.tls t).tracks = true := ThreadLocal.tracks_iff.mpr ⟨hseq, h.count t⟩
  obtain ⟨halloc, hq⟩ := h.agrees.allocHalf env.ans c call
  have hP : P.result c t call env =
      (logHalf c env (allocHalf c env.ans call P.tool).2 call
        (allocHalf c env.ans call P.tool).1, (allocHalf c env.ans call P.tool).2) := by
    rw [Process.result, wrapper_eq, if_pos htracks]
  have hQ : Q.result c t call env =
      (logHalf c env (allocHalf c env.ans call P.tool).2 call
        (allocHalf c env.ans call Q.tool).1, (allocHalf c env.ans call P.tool).2) := by
    rw [Process.result, h.fresh t, tracked_eq, hq]
  have hlogging : (allocHalf c env.ans call Q.tool).1.log.loggingEnabled = true := by
    rw [(allocHalf_log c env.ans call Q.tool).enabled, h.logging]
  have hbooks : (logEvents c.logConfig env (allocHalf c env.ans call P.tool).2 call
        (allocHalf c env.ans call P.tool).1.log).books =
      (logEvents c.logConfig env (allocHalf c env.ans call P.tool).2 call
        (allocHalf c env.ans call Q.tool).1.log).books := by
    have henabled := (allocHalf_log c env.ans call P.tool).enabled
    cases hon : P.tool.log.loggingEnabled with
    | true => exact logEvents_books _ _ env call halloc.books (by rw [henabled, hon]) hlogging
    | false =>
      have hcall : call.Quiet c.logConfig (allocHalf c env.ans call P.tool).2 P.tool.log :=
        (hquiet.resolve_left (by rw [hon]; exact Bool.false_ne_true)).of_offered
      -- the records of the second run are those of the first, less what was evicted
      have hcall' : call.Quiet c.logConfig (allocHalf c env.ans call P.tool).2
          (allocHalf c env.ans call Q.tool).1.log := by
        refine ⟨hcall.1, fun n hn => ⟨(hcall.2 n hn).1, fun hkeep => ?_⟩⟩
        have hfreed : P.tool.log.books.freedAllocations = Q.tool.log.books.freedAllocations := by
          rw [h.agrees.books]
        refine (allocHalf_log c env.ans call Q.tool).not_mem ?_
        show _ ∉ Q.tool.log.books.freedAllocations
        rw [← hfreed]
        exact (hcall.2 n hn).2 hkeep
      rw [logEvents_off (by rw [henabled, hon]), hcall'.logEvents_eq]
      exact halloc.books
  refine ⟨⟨?_, ?_, ?_⟩, ?_, h.count, h.fresh⟩
  · show (P.result c t call env).1.sys = (Q.result c t call env).1.sys
    rw [hP, hQ, logHalf_sys, logHalf_sys, halloc.sys]
  · show (P.result c t call env).1.mal = (Q.result c t call env).1.mal
    rw [hP, hQ, logHalf_mal, logHalf_mal, halloc.mal]
  · show (P.result c t call env).1.log.books = (Q.result c t call env).1.log.books
    rw [hP, hQ, logHalf_log, logHalf_log, hbooks]
  · show (Q.result c t call env).1.log.loggingEnabled = true
    rw [hQ, logHalf_log, logEvents, allocEvent_enabled, freeEvent_enabled, hlogging]

/-- A report is taken by the first run alone. -/
theorem report (h : Unreported P Q) (t : Tid) (phase : ReportPhase) :
    Unreported (P.next c (.report t phase)) Q := by
  obtain ⟨hsys, hmal⟩ := huReport_heap c t P phase
  refine ⟨⟨hsys.trans h.agrees.sys, hmal.trans h.agrees.mal, ?_⟩, h.logging, ?_, h.fresh⟩
  · cases phase with
    | disable => exact h.agrees.books
    | enable => exact h.agrees.books
    | summary order =>
      refine Eq.trans ?_ h.agrees.books
      simp only [Process.next, huReport, Process.logSummary, Process.onLog, Heapusage.logSummary]
      split <;> rfl
  · intro u
    cases phase with
    | summary order => exact h.count u
    | disable =>
      simp only [Process.next, huReport, onLog_tls, onThread_tls]
      split
      · exact h.count t
      · exact h.count u
    | enable =>
      simp only [Process.next, huReport, onThread_tls, onLog_tls]
      split
      · exact h.count t
      · exact h.count u

end Process.Unreported

/-- **Reports do not disturb the accounting** of a run in which no effective
event falls into a report: the books at the end are those of the same run with
all steps of `hu_report` deleted. -/
theorem reports_keep_accounts (c : HuConfig) (is : List Step)
    (hrun : Along (Process.next c) (fun P i => P.Sequential i ∧ P.Undropped c i) (.start c) is) :
    (exec (Process.next c) (.start c) is).tool.log.accounts =
      (exec (Process.next c) (.start c) (is.filter fun i => !i.isReport)).tool.log.accounts := by
  have hlift : ∀ is : List Step,
      is.flatMap (fun i => if i.isReport then [] else [i]) = is.filter fun i => !i.isReport := by
    intro is
    induction is with
    | nil => rfl
    | cons i is ih =>
      rw [List.flatMap_cons, ih, List.filter_cons]
      cases i.isReport <;> rfl
  have hrel : Process.Unreported (exec (Process.next c) (.start c) is)
      (exec (Process.next c) (.start c) (is.filter fun i => !i.isReport)) := by
    rw [← hlift]
    refine Along.lockstep _ ?_ is _ _ Process.Unreported.start hrun
    intro P Q i h hi
    cases i with
    | call t call env => exact h.call t call env hi.1 hi.2
    | report t phase => exact h.report t phase
    | fini t phase => exact absurd hi.1 id
  show LogState.accounts (LogState.books _) = LogState.accounts (LogState.books _)
  rw [hrel.agrees.books]

/-- A small request of thread 0 falls into a report by thread 1. -/
theorem reports_keep_accounts_small :
    let c := HuConfig.tools true false false 16
    let small := Step.call 0 (.malloc 8) (.answering 12288)
    let freed := Step.call 0 (.free 8192) (.answering 0)
    let before := Step.call 0 (.malloc 32) (.answering 8192)
    (exec (Process.next c) (.start c) [before, .report 1 .disable, small,
        .report 1 (.summary []), .report 1 .enable, freed]).tool.log.accounts =
      (exec (Process.next c) (.start c) [before, small, freed]).tool.log.accounts := by
  intro c small freed before
  exact reports_keep_accounts c [before, .report 1 .disable, small, .report 1 (.summary []),
    .report 1 .enable, freed] (by decide)

/-- An allocation of thread 0 during a report by thread 1 is never counted. -/
theorem report_drops_allocation :
    let c := HuConfig.tools false false false 0
    let is : List Step := [.report 1 .disable, .call 0 (.malloc 8) (.answering 8192),
      .report 1 (.summary []), .report 1 .enable]
    Along (Process.next c) (fun P i => P.Sequential i) (.start c) is ∧
      (exec (Process.next c) (.start c) is).tool.log.accounts ≠
        (exec (Process.next c) (.start c) (is.filter fun i => !i.isReport)).tool.log.accounts := by
  intro c is
  refine ⟨by decide, fun h => ?_⟩
  have htotal := congrArg Accounts.totalAllocs h
  exact absurd htotal (by decide)

end Heapusage
