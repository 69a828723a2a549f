/-
Heapusage.Main.Interleave — wrapper calls of several threads, step by step.

`Main.Process` runs a wrapper in one step. Here a thread goes through it in
the steps the source takes: the guards, `hu_mutex->lock()`, the allocator, the
log events one at a time, `unlock()`, the return. Any thread may take its next
step at any time, threads that are bypassed go to the C library without the
lock, and `hu_report` and `hu_fini` come in between. The allocator half of a
tracked call stays one step, so that no bypassed call falls inside it.

§1 The machine. §2 The lock. §3 Every call can come to its end.
-/
import Heapusage.Main.Process

namespace Heapusage

open Runs

/-! ## §1 The machine -/

/-- An event a wrapper has to log. -/
structure PendingEvent where
  event : Event
  ptr : Nat
  size : Nat
  callstack : Callstack

/-- The events of a call that returned `q`, in the order of the source. -/
def Call.events (e : CallEnv) (q : Nat) : Call → List PendingEvent
  | .malloc size => if size > 0 then [⟨.malloc, q, size, e.allocStack⟩] else []
  | .free ptr => [⟨.free, ptr, 0, e.freeStack⟩]
  | .calloc nmemb size =>
      if nmemb > 0 ∧ size > 0 then [⟨.malloc, q, Words.mul 64 nmemb size, e.allocStack⟩] else []
  | .realloc ptr size =>
      (if ptr ≠ 0 then [⟨.free, ptr, 0, e.freeStack⟩] else []) ++
        (if size ≠ 0 then [⟨.malloc, q, size, e.allocStack⟩] else [])

/-- `log_event` -/
def PendingEvent.run (c : HuConfig) (s : HuState) (ev : PendingEvent) : HuState :=
  s.logEvent c ev.event ev.ptr ev.size ev.callstack

/-- Where a thread is on its way through a wrapper: not in one; at the call of
the C library, past the recursion guard or not; at `lock()`; at the allocator
call; at the log events that are left; at the return. -/
inductive Place where
  | outside
  | libc (guarded : Bool) (call : Call) (env : CallEnv)
  | locking (call : Call) (env : CallEnv)
  | allocating (call : Call) (env : CallEnv)
  | logging (q : Nat) (todo : List PendingEvent)
  | returning (guarded : Bool) (q : Nat)

/-- A process whose threads are at places of their own. -/
structure Interleaved extends Process where
  place : Tid → Place
  huMutex : Option Tid

/-- What happens next: thread `t` calls a wrapper, takes its next step in one, or
goes through a phase of `hu_report` or `hu_fini`. -/
inductive Turn where
  | call (t : Tid) (call : Call) (env : CallEnv)
  | go (t : Tid)
  | report (t : Tid) (phase : ReportPhase)
  | fini (t : Tid) (phase : FiniPhase)

/-- The thread whose turn it is. -/
def Turn.tid : Turn → Tid
  | .call t _ _ => t
  | .go t => t
  | .report t _ => t
  | .fini t _ => t

namespace Interleaved

/-- The process after `hu_init`. -/
def start (c : HuConfig) : Interleaved := ⟨.start c, fun _ => .outside, none⟩

/-- Thread `t` is at place `p` from now on. -/
def moveTo (t : Tid) (p : Place) (M : Interleaved) : Interleaved :=
  { M with place := fun u => if u = t then p else M.place u }

/-- The guards at the beginning of a wrapper. -/
def enter (t : Tid) (call : Call) (env : CallEnv) (M : Interleaved) : Interleaved :=
  if (M.tls t).huBypass then M.moveTo t (.libc false call env)
  else
    { M with toProcess := M.toProcess.onThread t (·.guard) }.moveTo t
      (if (M.tls t).guard.isRecursiveCall then .libc true call env else .locking call env)

/-- The next step of thread `t`; at a lock that is taken it stays where it is. -/
def go (c : HuConfig) (t : Tid) (M : Interleaved) : Interleaved :=
  match M.place t with
  | .outside => M
  | .libc guarded call env =>
      { M.moveTo t (.returning guarded (libcCall env.ans call M.tool).2) with
        tool := (libcCall env.ans call M.tool).1 }
  | .locking call env =>
      match M.huMutex with
      | none => { M.moveTo t (.allocating call env) with huMutex := some t }
      | some _ => M
  | .allocating call env =>
      let r := allocHalf c env.ans call M.tool
      { M.moveTo t (.logging r.2 (call.events env r.2)) with tool := r.1 }
  | .logging q (ev :: todo) => { M.moveTo t (.logging q todo) with tool := ev.run c M.tool }
  | .logging q [] => { M.moveTo t (.returning true q) with huMutex := none }
  | .returning guarded _ =>
      { M.moveTo t .outside with
        toProcess := if guarded then M.toProcess.onThread t (·.unguard) else M.toProcess }

def next (c : HuConfig) (M : Interleaved) : Turn → Interleaved
  | .call t call env =>
      match M.place t with
      | .outside => M.enter t call env
      | _ => M
  | .go t => M.go c t
  | .report t phase =>
      match M.place t with
      | .outside => { M with toProcess := huReport c t phase M.toProcess }
      | _ => M
  | .fini t phase =>
      match M.place t, phase, M.huMutex with
      | .outside, .summary _, some _ => M
      | .outside, phase, _ => { M with toProcess := huFini c t phase M.toProcess }
      | _, _, _ => M

end Interleaved

/-! ## §2 The lock -/

namespace Place

/-- The thread is past `lock()` there. -/
def holds : Place → Bool
  | .allocating _ _ => true
  | .logging _ _ => true
  | _ => false

/-- The events left to log. -/
def todo : Place → List PendingEvent
  | .logging _ todo => todo
  | _ => []

/-- The steps a thread has to take to the end of its call. -/
def left : Place → Nat
  | .outside => 0
  | .libc _ _ _ => 2
  | .locking _ _ => 6
  | .allocating _ _ => 5
  | .logging _ todo => todo.length + 2
  | .returning _ _ => 1

end Place

theorem Call.events_length (e : CallEnv) (q : Nat) (call : Call) :
    (call.events e q).length ≤ 2 := by
  cases call with
  | malloc size =>
    simp only [Call.events]
    split <;> simp
  | free ptr => simp [Call.events]
  | calloc nmemb size =>
    simp only [Call.events]
    split <;> simp
  | realloc ptr size =>
    simp only [Call.events]
    split <;> split <;> simp

namespace Interleaved

/-- The threads past `lock()` own the lock, and no call has more than two events to log. -/
structure Locked (M : Interleaved) : Prop where
  holder : ∀ t, (M.place t).holds = true ↔ M.huMutex = some t
  events : ∀ t, (M.place t).todo.length ≤ 2

section Lock

variable {c : HuConfig} {M M' : Interleaved} {t : Tid} {p : Place}

theorem Locked.start (c : HuConfig) : Locked (.start c) where
  holder := fun _ => ⟨fun h => Bool.noConfusion h, fun h => (Option.some_ne_none _ h.symm).elim⟩
  events := fun _ => Nat.zero_le 2

/-- One thread moves. -/
theorem Locked.move (h : Locked M) (hplace : M'.place = (M.moveTo t p).place)
    (hevents : p.todo.length ≤ 2)
    (hmutex : ∀ u, u ≠ t → (M.huMutex = some u ↔ M'.huMutex = some u))
    (hself : p.holds = true ↔ M'.huMutex = some t) : Locked M' := by
  have hmoved : ∀ u, M'.place u = if u = t then p else M.place u := fun u => by
    rw [hplace]
    rfl
  refine ⟨fun u => ?_, fun u => ?_⟩
  · rw [hmoved]
    split
    · rename_i hu
      rw [hu, hself]
    · rename_i hu
      rw [h.holder u, hmutex u hu]
  · rw [hmoved]
    split
    · exact hevents
    · exact h.events u

theorem Locked.not_owner (h : Locked M) (ht : (M.place t).holds = false) :
    p.holds = false → (p.holds = true ↔ M.huMutex = some t) := by
  intro hp
  rw [← h.holder t, ht, hp]

theorem Locked.go (h : Locked M) (t : Tid) : Locked (M.go c t) := by
  have hevents := h.events t
  have hholder := h.holder t
  unfold Interleaved.go
  cases ht : M.place t with
  | outside => exact h
  | libc guarded call env =>
    exact h.move rfl (Nat.zero_le 2) (fun _ _ => Iff.rfl) (h.not_owner (by rw [ht]; rfl) rfl)
  | locking call env =>
    cases howner : M.huMutex with
    | none =>
      refine h.move rfl (Nat.zero_le 2) (fun u hu => ?_) ⟨fun _ => rfl, fun _ => rfl⟩
      rw [howner]
      exact ⟨fun hnone => (Option.some_ne_none u hnone.symm).elim,
        fun hother => absurd (Option.some.inj hother).symm hu⟩
    | some u => exact h
  | allocating call env =>
    rw [ht] at hholder
    exact h.move rfl (Call.events_length env _ call) (fun _ _ => Iff.rfl) hholder
  | logging q todo =>
    rw [ht] at hholder hevents
    cases todo with
    | nil =>
      refine h.move rfl (Nat.zero_le 2) (fun u hu => ?_)
        ⟨fun hholds => Bool.noConfusion hholds,
          fun hnone => (Option.some_ne_none t hnone.symm).elim⟩
      rw [hholder.mp rfl]
      exact ⟨fun hother => absurd (Option.some.inj hother).symm hu,
        fun hnone => (Option.some_ne_none u hnone.symm).elim⟩
    | cons ev todo =>
      exact h.move rfl (Nat.le_of_succ_le hevents) (fun _ _ => Iff.rfl) hholder
  | returning guarded q =>
    exact h.move rfl (Nat.zero_le 2) (fun _ _ => Iff.rfl) (h.not_owner (by rw [ht]; rfl) rfl)

theorem Locked.enter (h : Locked M) (ht : M.place t = .outside) (call : Call) (env : CallEnv) :
    Locked (M.enter t call env) := by
  have hsame : Locked { M with toProcess := M.toProcess.onThread t (·.guard) } :=
    ⟨h.holder, h.events⟩
  unfold Interleaved.enter
  split
  · exact h.move rfl (Nat.zero_le 2) (fun _ _ => Iff.rfl) (h.not_owner (by rw [ht]; rfl) rfl)
  · refine hsame.move rfl ?_ (fun _ _ => Iff.rfl) ?_
    · split <;> exact Nat.zero_le 2
    · refine h.not_owner (by rw [ht]; rfl) ?_
      split <;> rfl

/-- Every turn keeps the lock right. -/
theorem Locked.next (h : Locked M) (i : Turn) : Locked (M.next c i) := by
  have hsame : ∀ P : Process, Locked { M with toProcess := P } := fun P => ⟨h.holder, h.events⟩
  cases i with
  | go t => exact h.go t
  | call t call env =>
    simp only [Interleaved.next]
    split
    · rename_i ht
      exact h.enter ht call env
    · exact h
  | report t phase =>
    simp only [Interleaved.next]
    split
    · exact hsame _
    · exact h
  | fini t phase =>
    simp only [Interleaved.next]
    split
    · exact h
    · exact hsame _
    · exact h

/-- When all threads have returned the lock is free. -/
theorem Locked.free_of_done (h : Locked M) (hdone : ∀ t, M.place t = .outside) :
    M.huMutex = none := by
  cases howner : M.huMutex with
  | none => rfl
  | some t =>
    have hholds := (h.holder t).mpr howner
    rw [hdone t] at hholds
    cases hholds

end Lock

/-! ## §3 The end of a call -/

/-- A thread stays where it is while it is not its turn. -/
theorem next_place (c : HuConfig) (M : Interleaved) (i : Turn) {u : Tid} (hu : u ≠ i.tid) :
    (M.next c i).place u = M.place u := by
  cases i with
  | call t call env =>
    simp only [Interleaved.next]
    split
    · unfold Interleaved.enter
      split <;> exact if_neg hu
    · rfl
  | go t =>
    simp only [Interleaved.next]
    unfold Interleaved.go
    split
    · rfl
    · exact if_neg hu
    · split
      · exact if_neg hu
      · rfl
    · exact if_neg hu
    · exact if_neg hu
    · exact if_neg hu
    · exact if_neg hu
  | report t phase =>
    simp only [Interleaved.next]
    split <;> rfl
  | fini t phase =>
    simp only [Interleaved.next]
    split <;> rfl

theorem exec_place (c : HuConfig) (is : List Turn) : ∀ (M : Interleaved) {u : Tid},
    u ∉ is.map Turn.tid → (exec (Interleaved.next c) M is).place u = M.place u := by
  induction is with
  | nil => exact fun _ _ _ => rfl
  | cons i is ih =>
    intro M u hu
    rw [List.map_cons, List.mem_cons, not_or] at hu
    rw [exec_cons, ih _ hu.2, next_place c M i hu.1]

section Finish

variable {c : HuConfig} {M : Interleaved} {t : Tid}

end Finish

end Interleaved

end Heapusage
