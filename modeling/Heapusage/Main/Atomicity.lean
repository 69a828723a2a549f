/-
Heapusage.Main.Atomicity — the wrappers are atomic.

A call of a wrapper takes effect with its allocator call: what is left of it
then is in the log module, where nobody else looks before the lock is given
up. So the threads of `Main.Interleave` see the calls of `Main.Process`, which
takes a wrapper in one step.

§1 A log event and a call of the C library have nothing to do with each other.
§2 The atomic object a machine runs along (`Matches`), a lemma for each step.
§3 Histories, and the process at the end.
-/
import Heapusage.Main.Interleave
import Heapusage.Lib.Atomic

namespace Heapusage

open Runs Atomic

/-! ## §1 Log events and the C library -/

section Commute

variable (c : HuConfig) (e : CallEnv)

/-- The log half, event by event. -/
theorem logHalf_events (q : Nat) (call : Call) (s : HuState) :
    logHalf c e q call s = (call.events e q).foldl (PendingEvent.run c) s := by
  cases call with
  | malloc size =>
    simp only [logHalf, Call.events]
    split <;> rfl
  | free ptr => rfl
  | calloc nmemb size =>
    simp only [logHalf, Call.events]
    split <;> rfl
  | realloc ptr size =>
    simp only [logHalf, Call.events]
    split <;> split <;> rfl

/-- A log event reads and writes nothing a call of the C library does. -/
theorem libcCall_run (ev : PendingEvent) (call : Call) (s : HuState) :
    libcCall e.ans call (ev.run c s) =
      (ev.run c (libcCall e.ans call s).1, (libcCall e.ans call s).2) := by
  cases call <;> rfl

theorem libcCall_runs (call : Call) : ∀ (todo : List PendingEvent) (s : HuState),
    libcCall e.ans call (todo.foldl (PendingEvent.run c) s) =
      (todo.foldl (PendingEvent.run c) (libcCall e.ans call s).1, (libcCall e.ans call s).2) := by
  intro todo
  induction todo with
  | nil => exact fun _ => rfl
  | cons ev todo ih =>
    intro s
    rw [List.foldl_cons, ih, libcCall_run, List.foldl_cons]

end Commute

/-! ## §2 The atomic calls -/

/-- The thread a step of a process is taken by. -/
def Step.tid : Step → Tid
  | .call t _ _ => t
  | .report t _ => t
  | .fini t _ => t

/-- A step of a process as an operation with an answer; only calls have one. -/
def Process.apply (c : HuConfig) (P : Process) (i : Step) : Process × Nat :=
  (P.next c i,
    match i with
    | .call t call env => (P.result c t call env).2
    | _ => 0)

namespace Place

/-- How many recursion guards the thread has at the place. -/
def guards : Place → Nat
  | .outside => 0
  | .libc guarded _ _ => guarded.toNat
  | .locking _ _ => 1
  | .allocating _ _ => 1
  | .logging _ _ => 1
  | .returning guarded _ => guarded.toNat

/-- How far the atomic call of thread `t` has come when the thread is there: it
takes effect with the allocator call. -/
def stage (t : Tid) : Place → Atomic.Stage Step Nat
  | .outside => .idle
  | .libc _ call env => .invoked (.call t call env)
  | .locking call env => .invoked (.call t call env)
  | .allocating call env => .invoked (.call t call env)
  | .logging q _ => .answered q
  | .returning _ q => .answered q

/-- What the guards have found out. -/
def Guarded (bypass : Bool) : Place → Prop
  | .libc guarded _ _ => guarded = false ∧ bypass = true
  | .locking _ _ => bypass = false
  | .allocating _ _ => bypass = false
  | _ => True

end Place

namespace Interleaved

/-- The events the holder of the lock still has to log. -/
def todo (M : Interleaved) : List PendingEvent :=
  match M.huMutex with
  | some t => (M.place t).todo
  | none => []

/-- The process as it is when the calls past their allocator call are over, and
the others have not begun. -/
def settled (c : HuConfig) (M : Interleaved) : Process where
  tool := M.todo.foldl (PendingEvent.run c) M.tool
  tls := fun t => { M.tls t with huCallcount := 0 }

/-- The events a turn lets the program see. -/
def sees (M : Interleaved) : Turn → List (Atomic.Event Tid Step Nat)
  | .call t call env =>
      match M.place t with
      | .outside => [.invoke t (.call t call env)]
      | _ => []
  | .go t =>
      match M.place t with
      | .returning _ q => [.respond t q]
      | _ => []
  | .report t phase =>
      match M.place t with
      | .outside => [.invoke t (.report t phase), .respond t 0]
      | _ => []
  | .fini t phase =>
      match M.place t, phase, M.huMutex with
      | .outside, .summary _, some _ => []
      | .outside, phase, _ => [.invoke t (.fini t phase), .respond t 0]
      | _, _, _ => []

/-- No event is waiting to be logged when a report, or the first phase of
`hu_fini`, comes in without the lock. -/
def Undisturbed (M : Interleaved) : Turn → Prop
  | .report _ _ => M.todo = []
  | .fini _ .disable => M.todo = []
  | _ => True

/-- The atomic object the machine runs along. -/
structure Matches (c : HuConfig) (M : Interleaved) (X : Object Process Tid Step Nat) : Prop where
  state : X.state = M.settled c
  stage : ∀ t, X.stage t = (M.place t).stage t
  count : ∀ t, (M.tls t).huCallcount = (M.place t).guards
  locked : M.Locked
  guarded : ∀ t, (M.place t).Guarded (M.tls t).huBypass

/-! ### Moves -/

section Moves

variable {c : HuConfig} {M M' : Interleaved} {X X' : Object Process Tid Step Nat} {t : Tid}
  {p : Place}

theorem todo_of_mutex_none (h : M.huMutex = none) : M.todo = [] := by
  rw [todo, h]

/-- The events left are those of another thread, or there are none. -/
theorem todo_moveTo (h : (M.place t).todo = p.todo) (hplace : M'.place = (M.moveTo t p).place)
    (hmutex : M'.huMutex = M.huMutex) : M'.todo = M.todo := by
  unfold todo
  rw [hmutex, hplace]
  cases hholder : M.huMutex with
  | none => rfl
  | some u =>
    show (if u = t then p else M.place u).todo = (M.place u).todo
    split
    · rename_i hu
      rw [hu, h]
    · rfl

/-- One thread moves, in the machine and in the atomic object. -/
theorem Matches.move (h : Matches c M X) (hplace : M'.place = (M.moveTo t p).place)
    (hstage : ∀ u, X'.stage u = if u = t then p.stage t else X.stage u)
    (hstate : X'.state = M'.settled c)
    (hothers : ∀ u, u ≠ t → M'.tls u = M.tls u)
    (hcount : (M'.tls t).huCallcount = p.guards)
    (hguarded : p.Guarded (M'.tls t).huBypass) (hlocked : M'.Locked) : Matches c M' X' := by
  have hmoved : ∀ u, M'.place u = if u = t then p else M.place u := fun u => by
    rw [hplace]
    rfl
  refine ⟨hstate, fun u => ?_, fun u => ?_, hlocked, fun u => ?_⟩
  · rw [hstage, hmoved]
    split
    · rename_i hu
      rw [hu]
    · exact h.stage u
  · rw [hmoved]
    split
    · rename_i hu
      rw [hu, hcount]
    · rename_i hu
      rw [hothers u hu, h.count u]
  · rw [hmoved]
    split
    · rename_i hu
      rw [hu]
      exact hguarded
    · rename_i hu
      rw [hothers u hu]
      exact h.guarded u

/-- The atomic call comes no further. -/
theorem Matches.stage_stays (h : Matches c M X) (hp : (M.place t).stage t = p.stage t) (u : Tid) :
    X.stage u = if u = t then p.stage t else X.stage u := by
  split
  · rename_i hu
    rw [hu, h.stage t, hp]
  · rfl

/-- What the thread past `lock()` has to log is what there is to log. -/
theorem Matches.todo_owner (h : Matches c M X) (ht : (M.place t).holds = true) :
    M.todo = (M.place t).todo := by
  rw [todo, (h.locked.holder t).mp ht]

end Moves

/-! ### Steps -/

section Steps

variable {c : HuConfig} {M : Interleaved} {X : Object Process Tid Step Nat} {t : Tid}

/-- The guards: the operation is invoked. -/
theorem Matches.enter (h : Matches c M X) (ht : M.place t = .outside) (call : Call)
    (env : CallEnv) :
    Matches c (M.enter t call env) (X.move t (.invoked (.call t call env))) := by
  have hcount : (M.tls t).huCallcount = 0 := by
    rw [h.count t, ht]
    rfl
  have hrecursive : (M.tls t).guard.isRecursiveCall = false := by
    simp [ThreadLocal.isRecursiveCall, ThreadLocal.guard, hcount]
  have hlocked := h.locked.enter ht call env
  unfold Interleaved.enter at hlocked ⊢
  cases hbypass : (M.tls t).huBypass with
  | true =>
    rw [hbypass, if_pos rfl] at hlocked
    rw [if_pos rfl]
    have htodo : (M.moveTo t (.libc false call env)).todo = M.todo :=
      todo_moveTo (by rw [ht]; rfl) rfl rfl
    refine h.move rfl (fun _ => rfl) ?_ (fun _ _ => rfl) hcount ⟨rfl, hbypass⟩ hlocked
    show X.state = _
    rw [h.state, settled, settled, htodo]
    rfl
  | false =>
    rw [hbypass, if_neg Bool.false_ne_true, hrecursive, if_neg Bool.false_ne_true] at hlocked
    rw [if_neg Bool.false_ne_true, hrecursive, if_neg Bool.false_ne_true]
    have htodo : ({ M with toProcess := M.toProcess.onThread t (·.guard) }.moveTo t
        (.locking call env)).todo = M.todo := todo_moveTo (by rw [ht]; rfl) rfl rfl
    refine h.move rfl (fun _ => rfl) ?_ ?_ ?_ ?_ hlocked
    · show X.state = _
      rw [h.state, settled, settled, htodo]
      refine congrArg₂ Process.mk rfl (funext fun u => ?_)
      show _ = { (if u = t then (M.tls t).guard else M.tls u) with huCallcount := 0 }
      split
      · rename_i hu
        rw [hu]
        rfl
      · rfl
    · intro u hu
      exact if_neg hu
    · show (if t = t then (M.tls t).guard else M.tls t).huCallcount = 1
      rw [if_pos rfl]
      show (M.tls t).huCallcount + 1 = 1
      rw [hcount]
    · show (if t = t then (M.tls t).guard else M.tls t).huBypass = false
      rw [if_pos rfl]
      exact hbypass

/-- A bypassed call takes effect in the C library. -/
theorem Matches.libc (h : Matches c M X) {guarded : Bool} {call : Call} {env : CallEnv}
    (ht : M.place t = .libc guarded call env) :
    (Process.apply c X.state (.call t call env)).2 = (libcCall env.ans call M.tool).2 ∧
      Matches c (M.go c t) (X.takeEffect (Process.apply c) t (.call t call env)) := by
  have hguarded := h.guarded t
  rw [ht] at hguarded
  obtain ⟨rfl, hbypass⟩ := hguarded
  have htracks : ((M.settled c).tls t).tracks = false := by
    rw [ThreadLocal.tracks_eq]
    simp [settled, hbypass]
  have hresult : X.state.result c t call env = libcCall env.ans call (M.settled c).tool := by
    rw [h.state, Process.result, wrapper_eq, htracks, if_neg Bool.false_ne_true]
  rw [settled, libcCall_runs c env] at hresult
  have hanswer : (Process.apply c X.state (.call t call env)).2 =
      (libcCall env.ans call M.tool).2 := congrArg Prod.snd hresult
  have hgo : M.go c t = { M.moveTo t (.returning false (libcCall env.ans call M.tool).2) with
      tool := (libcCall env.ans call M.tool).1 } := by
    rw [Interleaved.go, ht]
  have htodo : (M.moveTo t (.returning false (libcCall env.ans call M.tool).2)).todo = M.todo :=
    todo_moveTo (by rw [ht]; rfl) rfl rfl
  have hlocked := h.locked.go (c := c) t
  rw [hgo] at hlocked ⊢
  refine ⟨hanswer, h.move rfl ?_ ?_ (fun _ _ => rfl) ?_ trivial hlocked⟩
  · intro u
    rw [Object.takeEffect_stage, hanswer]
    rfl
  · show X.state.next c (.call t call env) = _
    rw [Process.next, hresult, h.state, ← htodo]
    rfl
  · show (M.tls t).huCallcount = 0
    rw [h.count t, ht]
    rfl

/-- A thread gets the lock. -/
theorem Matches.acquire (h : Matches c M X) {call : Call} {env : CallEnv}
    (ht : M.place t = .locking call env) (hfree : M.huMutex = none) :
    Matches c (M.go c t) X := by
  have hgo : M.go c t = { M.moveTo t (.allocating call env) with huMutex := some t } := by
    rw [Interleaved.go, ht, hfree]
  have htodo : (M.go c t).todo = M.todo := by
    rw [todo_of_mutex_none hfree, hgo, todo, moveTo]
    simp only [if_true]
    rfl
  have hstate : X.state = (M.go c t).settled c := by
    rw [h.state, settled, settled, htodo, hgo]
    rfl
  have hlocked := h.locked.go (c := c) t
  rw [hgo] at hstate hlocked ⊢
  refine h.move rfl (h.stage_stays (by rw [ht]; rfl)) hstate (fun _ _ => rfl) ?_ ?_ hlocked
  · show (M.tls t).huCallcount = 1
    rw [h.count t, ht]
    rfl
  · have hguarded := h.guarded t
    rwa [ht] at hguarded

/-- **A tracked call takes effect with its allocator call**: what is left of it
then is in the log module. -/
theorem Matches.allocate (h : Matches c M X) {call : Call} {env : CallEnv}
    (ht : M.place t = .allocating call env) :
    (Process.apply c X.state (.call t call env)).2 = (allocHalf c env.ans call M.tool).2 ∧
      Matches c (M.go c t) (X.takeEffect (Process.apply c) t (.call t call env)) := by
  have howner : M.huMutex = some t := (h.locked.holder t).mp (by rw [ht]; rfl)
  have hnone : M.todo = [] := by
    rw [h.todo_owner (by rw [ht]; rfl), ht]
    rfl
  have hbypass := h.guarded t
  rw [ht] at hbypass
  have htracks : ((M.settled c).tls t).tracks = true := by
    rw [ThreadLocal.tracks_eq]
    have hoff : (M.tls t).huBypass = false := hbypass
    simp [settled, hoff]
  have hresult : X.state.result c t call env =
      ((call.events env (allocHalf c env.ans call M.tool).2).foldl (PendingEvent.run c)
        (allocHalf c env.ans call M.tool).1, (allocHalf c env.ans call M.tool).2) := by
    rw [h.state, Process.result, wrapper_eq, htracks, if_pos rfl, logHalf_events, settled, hnone]
    rfl
  have hanswer : (Process.apply c X.state (.call t call env)).2 =
      (allocHalf c env.ans call M.tool).2 := congrArg Prod.snd hresult
  have hgo : M.go c t = { M.moveTo t (.logging (allocHalf c env.ans call M.tool).2
      (call.events env (allocHalf c env.ans call M.tool).2)) with
      tool := (allocHalf c env.ans call M.tool).1 } := by
    rw [Interleaved.go, ht]
  have htodo : (M.go c t).todo = call.events env (allocHalf c env.ans call M.tool).2 := by
    rw [hgo, todo]
    simp only [moveTo, howner, if_true]
    rfl
  have hstate : X.state.next c (.call t call env) = (M.go c t).settled c := by
    rw [Process.next, hresult, h.state, settled, settled, htodo, hgo]
    rfl
  have hlocked := h.locked.go (c := c) t
  rw [hgo] at hstate hlocked ⊢
  refine ⟨hanswer, h.move rfl ?_ hstate (fun _ _ => rfl) ?_ trivial hlocked⟩
  · intro u
    rw [Object.takeEffect_stage, hanswer]
    rfl
  · show (M.tls t).huCallcount = 1
    rw [h.count t, ht]
    rfl

/-- A pending event is logged. -/
theorem Matches.logged (h : Matches c M X) {q : Nat} {ev : PendingEvent}
    {todo : List PendingEvent} (ht : M.place t = .logging q (ev :: todo)) :
    Matches c (M.go c t) X := by
  have howner : M.huMutex = some t := (h.locked.holder t).mp (by rw [ht]; rfl)
  have hgo : M.go c t = { M.moveTo t (.logging q todo) with tool := ev.run c M.tool } := by
    rw [Interleaved.go, ht]
  have hbefore : M.todo = ev :: todo := by
    rw [h.todo_owner (by rw [ht]; rfl), ht]
    rfl
  have hafter : (M.go c t).todo = todo := by
    rw [hgo, Interleaved.todo]
    simp only [moveTo, howner, if_true]
    rfl
  have hstate : X.state = (M.go c t).settled c := by
    rw [h.state, settled, settled, hbefore, hafter, hgo]
    rfl
  have hlocked := h.locked.go (c := c) t
  rw [hgo] at hstate hlocked ⊢
  refine h.move rfl (h.stage_stays (by rw [ht]; rfl)) hstate (fun _ _ => rfl) ?_ trivial hlocked
  show (M.tls t).huCallcount = 1
  rw [h.count t, ht]
  rfl

/-- The lock is given up. -/
theorem Matches.unlock (h : Matches c M X) {q : Nat} (ht : M.place t = .logging q []) :
    Matches c (M.go c t) X := by
  have hgo : M.go c t = { M.moveTo t (.returning true q) with huMutex := none } := by
    rw [Interleaved.go, ht]
  have hbefore : M.todo = [] := by
    rw [h.todo_owner (by rw [ht]; rfl), ht]
    rfl
  have hstate : X.state = (M.go c t).settled c := by
    rw [h.state, settled, settled, hbefore, hgo]
    rfl
  have hlocked := h.locked.go (c := c) t
  rw [hgo] at hstate hlocked ⊢
  refine h.move rfl (h.stage_stays (by rw [ht]; rfl)) hstate (fun _ _ => rfl) ?_ trivial hlocked
  show (M.tls t).huCallcount = 1
  rw [h.count t, ht]
  rfl

/-- The wrapper returns. -/
theorem Matches.respond (h : Matches c M X) {guarded : Bool} {q : Nat}
    (ht : M.place t = .returning guarded q) : Matches c (M.go c t) (X.move t .idle) := by
  have hcount : (M.tls t).huCallcount = guarded.toNat := by
    rw [h.count t, ht]
    rfl
  have hgo : M.go c t = { M.moveTo t .outside with
      toProcess := if guarded then M.toProcess.onThread t (·.unguard) else M.toProcess } := by
    rw [Interleaved.go, ht]
  have hprocess : (if guarded then M.toProcess.onThread t (·.unguard) else M.toProcess) =
      M.toProcess.onThread t (fun l => { l with huCallcount := 0 }) := by
    cases guarded with
    | true =>
      refine congrArg₂ Process.mk rfl (funext fun u => ?_)
      simp [ThreadLocal.unguard, hcount]
    | false =>
      refine congrArg₂ Process.mk rfl (funext fun u => ?_)
      split
      · rename_i hu
        have hzero : (M.tls t).huCallcount = 0 := hcount
        rw [hu, ← hzero]
      · rfl
  have htodo : (M.moveTo t .outside).todo = M.todo := todo_moveTo (by rw [ht]; rfl) rfl rfl
  have hlocked := h.locked.go (c := c) t
  rw [hgo, hprocess] at hlocked
  rw [hgo, hprocess]
  refine h.move rfl (fun _ => rfl) ?_ ?_ ?_ trivial hlocked
  · show X.state = _
    rw [h.state, settled, ← htodo]
    refine congrArg₂ Process.mk rfl (funext fun u => ?_)
    show _ =
      { (if u = t then { M.tls t with huCallcount := 0 } else M.tls u) with huCallcount := 0 }
    split
    · rename_i hu
      rw [hu]
    · rfl
  · intro u hu
    exact if_neg hu
  · show (if t = t then { M.tls t with huCallcount := 0 } else M.tls t).huCallcount = 0
    rw [if_pos rfl]

/-- A phase of a report or of `hu_fini` is a whole operation. -/
theorem Matches.phase (h : Matches c M X) (ht : M.place t = .outside) {P : Process} {i : Step}
    (hnext : X.state.next c i = { M with toProcess := P }.settled c)
    (hcount : ∀ u, (P.tls u).huCallcount = (M.tls u).huCallcount)
    (hbypass : ∀ u, u ≠ t → P.tls u = M.tls u) :
    Matches c { M with toProcess := P } ⟨X.state.next c i, X.stage⟩ := by
  refine ⟨hnext, h.stage, fun u => (hcount u).trans (h.count u),
    ⟨h.locked.holder, h.locked.events⟩, fun u => ?_⟩
  by_cases hu : u = t
  · show (M.place u).Guarded _
    rw [hu, ht]
    trivial
  · show (M.place u).Guarded (P.tls u).huBypass
    rw [hbypass u hu]
    exact h.guarded u

theorem settled_of_todo (hM : M.todo = []) :
    M.settled c = { M.toProcess with tls := fun t => { M.tls t with huCallcount := 0 } } := by
  rw [settled, hM]
  rfl

/-- Setting the flag of a thread has nothing to do with the counters. -/
theorem settled_setBypass (c : HuConfig) (t : Tid) (bypass : Bool) (M : Interleaved) :
    (M.settled c).onThread t (·.huSetBypass bypass) =
      { M with toProcess := M.toProcess.onThread t (·.huSetBypass bypass) }.settled c := by
  refine congrArg₂ Process.mk rfl (funext fun u => ?_)
  show (if u = t then _ else _ : ThreadLocal) =
    { (if u = t then (M.tls t).huSetBypass bypass else M.tls u) with huCallcount := 0 }
  split <;> rfl

/-- Nor has the log module, when no event is pending. -/
theorem settled_onLog (c : HuConfig) (f : LogState → LogState) (M : Interleaved)
    (hM : M.todo = []) :
    (M.settled c).onLog f = { M with toProcess := M.toProcess.onLog f }.settled c := by
  rw [settled_of_todo hM, settled_of_todo (M := { M with toProcess := M.toProcess.onLog f }) hM]
  rfl

theorem settled_logSummary (c : HuConfig) (ondemand : Bool) (order : List HuAllocinfoT)
    (M : Interleaved) (hM : M.todo = []) :
    (M.settled c).logSummary c ondemand order =
      { M with toProcess := M.toProcess.logSummary c ondemand order }.settled c := by
  have hafter := settled_of_todo (c := c)
    (M := { M with toProcess := M.toProcess.logSummary c ondemand order }) hM
  rw [settled_of_todo hM, hafter]
  rfl

theorem onThread_other {P : Process} {f : ThreadLocal → ThreadLocal} {u : Tid} (hu : u ≠ t) :
    (P.onThread t f).tls u = P.tls u := if_neg hu

theorem setBypass_count (P : Process) (bypass : Bool) (u : Tid) :
    ((P.onThread t (·.huSetBypass bypass)).tls u).huCallcount = (P.tls u).huCallcount := by
  rw [Process.onThread_tls]
  split
  · rename_i hu
    rw [hu]
    rfl
  · rfl

theorem Matches.report (h : Matches c M X) (ht : M.place t = .outside) (hM : M.todo = [])
    (phase : ReportPhase) :
    Matches c { M with toProcess := huReport c t phase M.toProcess }
      ⟨X.state.next c (.report t phase), X.stage⟩ := by
  cases phase with
  | disable =>
    refine h.phase ht ?_ (fun u => setBypass_count M.toProcess true u)
      (fun u hu => onThread_other hu)
    show ((X.state.onThread t (·.huSetBypass true)).onLog (logEnable false)) = _
    rw [h.state, settled_setBypass]
    exact settled_onLog c (logEnable false)
      { M with toProcess := M.toProcess.onThread t (·.huSetBypass true) } hM
  | summary order =>
    refine h.phase ht ?_ (fun _ => rfl) (fun _ _ => rfl)
    show X.state.logSummary c true order = _
    rw [h.state]
    exact settled_logSummary c true order M hM
  | enable =>
    refine h.phase ht ?_ (fun u => setBypass_count (M.toProcess.onLog (logEnable true)) false u)
      (fun u hu => onThread_other hu)
    show ((X.state.onLog (logEnable true)).onThread t (·.huSetBypass false)) = _
    rw [h.state, settled_onLog c (logEnable true) M hM]
    exact settled_setBypass c t false { M with toProcess := M.toProcess.onLog (logEnable true) }

theorem Matches.fini (h : Matches c M X) (ht : M.place t = .outside) (phase : FiniPhase)
    (hM : M.todo = [] ∨ phase = .restore) :
    Matches c { M with toProcess := huFini c t phase M.toProcess }
      ⟨X.state.next c (.fini t phase), X.stage⟩ := by
  cases phase with
  | disable =>
    have hnone : M.todo = [] := hM.resolve_right FiniPhase.noConfusion
    refine h.phase ht ?_ (fun u => setBypass_count (M.toProcess.onLog (logEnable false)) true u)
      (fun u hu => onThread_other hu)
    show ((X.state.onLog (logEnable false)).onThread t (·.huSetBypass true)) = _
    rw [h.state, settled_onLog c (logEnable false) M hnone]
    exact settled_setBypass c t true { M with toProcess := M.toProcess.onLog (logEnable false) }
  | summary order =>
    have hnone : M.todo = [] := hM.resolve_right FiniPhase.noConfusion
    refine h.phase ht ?_ (fun _ => rfl) (fun _ _ => rfl)
    show X.state.logSummary c false order = _
    rw [h.state]
    exact settled_logSummary c false order M hnone
  | restore =>
    refine h.phase ht ?_ (fun u => setBypass_count M.toProcess false u)
      (fun u hu => onThread_other hu)
    show X.state.onThread t (·.huSetBypass false) = _
    rw [h.state]
    exact settled_setBypass c t false M

end Steps

/-! ## §3 Runs -/

section Run

variable {c : HuConfig} {M : Interleaved} {X : Object Process Tid Step Nat}

theorem Matches.start (c : HuConfig) : Matches c (.start c) (.idle (.start c)) where
  state := rfl
  stage := fun _ => rfl
  count := fun _ => rfl
  locked := Locked.start c
  guarded := fun _ => trivial

/-- A thread's next step is a path of the atomic calls. -/
theorem Matches.go (h : Matches c M X) (t : Tid) :
    ∃ ms Y, Path (Process.apply c) X ms Y ∧ ms.filterMap Mark.seen = M.sees (.go t) ∧
      Matches c (M.go c t) Y := by
  have hstage := h.stage t
  cases ht : M.place t with
  | outside =>
    refine ⟨[], X, .nil X, by simp [sees, ht], ?_⟩
    rw [Interleaved.go, ht]
    exact h
  | libc guarded call env =>
    rw [ht] at hstage
    exact ⟨_, _, .takeEffect hstage (.nil _), by simp [sees, ht, Mark.seen], (h.libc ht).2⟩
  | locking call env =>
    refine ⟨[], X, .nil X, by simp [sees, ht], ?_⟩
    cases howner : M.huMutex with
    | none => exact h.acquire ht howner
    | some u =>
      rw [Interleaved.go, ht, howner]
      exact h
  | allocating call env =>
    rw [ht] at hstage
    exact ⟨_, _, .takeEffect hstage (.nil _), by simp [sees, ht, Mark.seen], (h.allocate ht).2⟩
  | logging q todo =>
    refine ⟨[], X, .nil X, by simp [sees, ht], ?_⟩
    cases todo with
    | nil => exact h.unlock ht
    | cons ev todo => exact h.logged ht
  | returning guarded q =>
    rw [ht] at hstage
    exact ⟨_, _, .respond hstage (.nil _), by simp [sees, ht, Mark.seen], h.respond ht⟩

/-- So is every turn that does not disturb a call. -/
theorem Matches.next (h : Matches c M X) (i : Turn) (hi : M.Undisturbed i) :
    ∃ ms Y, Path (Process.apply c) X ms Y ∧ ms.filterMap Mark.seen = M.sees i ∧
      Matches c (M.next c i) Y := by
  have hstays : M.sees i = [] → M.next c i = M → ∃ ms Y, Path (Process.apply c) X ms Y ∧
      ms.filterMap Mark.seen = M.sees i ∧ Matches c (M.next c i) Y := by
    intro hsees hnext
    rw [hsees, hnext]
    exact ⟨[], X, .nil X, rfl, h⟩
  cases i with
  | go t => exact h.go t
  | call t call env =>
    cases ht : M.place t with
    | outside =>
      have hstage := h.stage t
      rw [ht] at hstage
      refine ⟨_, _, .invoke (.call t call env) hstage (.nil _), by simp [sees, ht, Mark.seen], ?_⟩
      rw [Interleaved.next, ht]
      exact h.enter ht call env
    | _ => exact hstays (by simp [sees, ht]) (by simp [Interleaved.next, ht])
  | report t phase =>
    cases ht : M.place t with
    | outside =>
      have hstage := h.stage t
      rw [ht] at hstage
      have hpath : Path (Process.apply c) X _ ⟨X.state.next c (.report t phase), X.stage⟩ :=
        .whole (.report t phase) hstage
      refine ⟨_, _, hpath, by rw [sees, ht]; rfl, ?_⟩
      rw [Interleaved.next, ht]
      exact h.report ht hi phase
    | _ => exact hstays (by simp [sees, ht]) (by simp [Interleaved.next, ht])
  | fini t phase =>
    cases ht : M.place t with
    | outside =>
      have hstage := h.stage t
      rw [ht] at hstage
      have hwhole : (M.todo = [] ∨ phase = .restore) →
          M.sees (.fini t phase) = [.invoke t (.fini t phase), .respond t 0] →
          M.next c (.fini t phase) = { M with toProcess := huFini c t phase M.toProcess } →
          ∃ ms Y, Path (Process.apply c) X ms Y ∧ ms.filterMap Mark.seen = M.sees (.fini t phase) ∧
            Matches c (M.next c (.fini t phase)) Y := by
        intro hM hsees hnext
        rw [hsees, hnext]
        have hpath : Path (Process.apply c) X _ ⟨X.state.next c (.fini t phase), X.stage⟩ :=
          .whole (.fini t phase) hstage
        exact ⟨_, _, hpath, rfl, h.fini ht phase hM⟩
      cases phase with
      | disable =>
        exact hwhole (.inl hi) (by simp [sees, ht]) (by simp [Interleaved.next, ht])
      | summary order =>
        cases howner : M.huMutex with
        | none =>
          exact hwhole (.inl (todo_of_mutex_none howner)) (by simp [sees, ht, howner])
            (by simp [Interleaved.next, ht, howner])
        | some u =>
          exact hstays (by simp [sees, ht, howner]) (by simp [Interleaved.next, ht, howner])
      | restore =>
        exact hwhole (.inr rfl) (by simp [sees, ht]) (by simp [Interleaved.next, ht])
    | _ => exact hstays (by simp [sees, ht]) (by simp [Interleaved.next, ht])

/-- Every run goes along a path of the atomic calls. -/
theorem Matches.run (c : HuConfig) (is : List Turn)
    (his : Along (Interleaved.next c) Undisturbed (.start c) is) :
    ∃ ms X, Path (Process.apply c) (.idle (.start c)) ms X ∧
      ms.filterMap Mark.seen = history (Interleaved.next c) sees (.start c) is ∧
      Matches c (exec (Interleaved.next c) (.start c) is) X :=
  Path.simulation (fun M i X (h : Matches c M X) (hi : M.Undisturbed i) => h.next i hi) is
    (.start c) (.idle (.start c)) (Matches.start c) his

/-- All threads are in the program: nothing is pending, and the counters are zero. -/
theorem Matches.settled_eq (h : Matches c M X) (hM : ∀ t, M.place t = .outside) :
    M.settled c = M.toProcess := by
  rw [settled_of_todo (todo_of_mutex_none (h.locked.free_of_done hM))]
  refine congrArg₂ Process.mk rfl (funext fun t => ?_)
  have hzero : (M.tls t).huCallcount = 0 := by
    rw [h.count t, hM t]
    rfl
  rw [← hzero]

/-- When all threads have returned the effects are a serial run to the process at the
end, those of each thread what it has seen completed. -/
theorem Matches.effects (h : Matches c M X) (hM : ∀ t, M.place t = .outside)
    {ms : List (Mark Tid Step Nat)} (hpath : Path (Process.apply c) (.idle (.start c)) ms X) :
    Serial (Process.apply c) (.start c) (ms.filterMap Mark.effect) M.toProcess ∧
      ∀ t, ofThread t (ms.filterMap Mark.effect) = completed t none (ms.filterMap Mark.seen) := by
  refine ⟨?_, fun t => hpath.completed rfl ?_⟩
  · have hserial := hpath.serial
    rwa [h.state, h.settled_eq hM] at hserial
  · rw [h.stage t, hM t]
    rfl

end Run

end Interleaved

/-- **The wrappers are linearizable**: in every run of the threads, however
their steps are interleaved, each call takes effect at one instant between its
invocation and its return, as the call of `Main.Process`, provided no report
and no `hu_fini` comes between an allocator call and its log events. -/
theorem calls_linearizable (c : HuConfig) (is : List Turn)
    (his : Along (Interleaved.next c) Interleaved.Undisturbed (.start c) is) :
    Linearizable (Process.apply c) (.start c)
      (history (Interleaved.next c) Interleaved.sees (.start c) is) := by
  obtain ⟨ms, X, hpath, hseen, -⟩ := Interleaved.Matches.run c is his
  exact ⟨ms, X, hpath, hseen⟩

/-- Two threads call `malloc`; the second meets the lock while the first is at
its log event. -/
def twoThreads : List Turn :=
  [.call 0 (.malloc 8) (.answering 4096), .go 0, .call 1 (.malloc 16) (.answering 8192), .go 0,
    .go 1, .go 0, .go 0, .go 1, .go 0, .go 1, .go 1, .go 1, .go 1]

theorem twoThreads_undisturbed (c : HuConfig) :
    Along (Interleaved.next c) Interleaved.Undisturbed (.start c) twoThreads := by
  simp only [twoThreads, along_cons, along_nil, Interleaved.Undisturbed, and_true]

/-- Both calls are invoked before one of them returns. -/
theorem calls_linearizable_two_threads :
    Linearizable (Process.apply (.tools true false false 0)) (.start (.tools true false false 0))
      [.invoke 0 (.call 0 (.malloc 8) (.answering 4096)),
        .invoke 1 (.call 1 (.malloc 16) (.answering 8192)), .respond 0 4096, .respond 1 8192] :=
  calls_linearizable (.tools true false false 0) twoThreads (twoThreads_undisturbed _)

/-- **Interleaved calls are calls one after the other**: when all threads have
returned, the process is the one after the same calls in some order, each
thread's in the order it made them and with the answers it got. -/
theorem interleaved_calls_serial (c : HuConfig) (is : List Turn)
    (his : Along (Interleaved.next c) Interleaved.Undisturbed (.start c) is)
    (hdone : ∀ t, (exec (Interleaved.next c) (.start c) is).place t = .outside) :
    ∃ order : List (Tid × Step × Nat),
      Serial (Process.apply c) (.start c) order
        (exec (Interleaved.next c) (.start c) is).toProcess ∧
      ∀ t, ofThread t order =
        completed t none (history (Interleaved.next c) Interleaved.sees (.start c) is) := by
  obtain ⟨ms, X, hpath, hseen, hX⟩ := Interleaved.Matches.run c is his
  obtain ⟨hserial, heffects⟩ := hX.effects hdone hpath
  rw [hseen] at heffects
  exact ⟨_, hserial, heffects⟩

/-- The same two calls, each seen by its own thread. -/
theorem interleaved_calls_serial_two_threads :
    ∃ order : List (Tid × Step × Nat),
      Serial (Process.apply (.tools true false false 0)) (.start (.tools true false false 0)) order
        (exec (Interleaved.next (.tools true false false 0)) (.start (.tools true false false 0))
          twoThreads).toProcess ∧
      ∀ t, ofThread t order = completed t none
        [.invoke 0 (.call 0 (.malloc 8) (.answering 4096)),
          .invoke 1 (.call 1 (.malloc 16) (.answering 8192)), .respond 0 4096,
          .respond 1 8192] := by
  refine interleaved_calls_serial (.tools true false false 0) twoThreads
    (twoThreads_undisturbed _) fun t => ?_
  have htids : ∀ i ∈ twoThreads, i.tid ∈ [0, 1] := by decide
  by_cases ht : t ∈ [0, 1]
  · rcases List.mem_pair.mp ht with rfl | rfl <;> rfl
  · refine Interleaved.exec_place _ twoThreads (.start (.tools true false false 0)) fun hmem => ?_
    obtain ⟨i, hi, rfl⟩ := List.mem_map.mp hmem
    exact ht (htids i hi)

end Heapusage
