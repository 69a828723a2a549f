/-
Heapusage.Main.Control — one thread's control flow around `hu_mutex`.

A thread is a stack of frames: wrapper calls at their stages, `hu_report`,
`hu_sig_handler` and `hu_fini`. Anything may be put on top of anything: a
wrapper called from inside a wrapper, the report signal, `SIGSEGV`, an `exit`.
`hu_mutex` is not recursive, so asking for it while holding it is the end of
the thread; §3 says which runs never come to that, §4 that no other run is safe.

§1 The machine.
§2 The invariant: what may lie below what.
§3 No thread waits for itself.
§4 Every other step leads to it.
-/
import Heapusage.Main.Process

namespace Heapusage

open Runs

/-! ## §1 Frames -/

/-- The stages of a wrapper: past the test of `hu_bypass`; a recursive call,
handed to the C library; at `hu_mutex->lock()`; in the body; the lock guard
destroyed and the recursion guard not yet. -/
inductive WrapperStage where
  | passed
  | recursive
  | locking
  | locked
  | unlocked
  deriving DecidableEq, Repr

/-- The stages of `hu_fini`: up to `hu_bypass = true`; at `hu_mutex->lock()`;
in the summary; up to `hu_bypass = false`; returned to `exit`, which goes on
with other destructors. -/
inductive FiniStage where
  | started
  | locking
  | locked
  | unlocked
  | finished
  deriving DecidableEq, Repr

inductive Frame where
  | wrapper (stage : WrapperStage)
  | huReport
  | huSigHandler
  | huFini (stage : FiniStage)
  deriving DecidableEq, Repr

/-- A thread. `huMutex` says whether it holds the lock. -/
structure Control where
  tls : ThreadLocal
  stack : List Frame
  huMutex : Bool
  deriving DecidableEq

/-- What happens next: a wrapper is called, the report signal or a fault comes
in, `exit` is called, or the topmost frame goes on. -/
inductive Signal where
  | call
  | report
  | sigsegv
  | exit
  | go
  deriving DecidableEq, Repr

namespace Control

/-- A thread in the program's code. -/
def start (bypass saved : Bool) : Control := ⟨⟨bypass, saved, 0⟩, [], false⟩

/-- `hu_mutex->lock()`: goes through if the thread does not hold the lock. -/
def lock (stack : List Frame) (k : Control) : Control :=
  if k.huMutex then k else { k with stack := stack, huMutex := true }

/-- The topmost frame goes on. -/
def go (k : Control) : Control :=
  match k.stack with
  | [] => k
  | .wrapper .passed :: rest =>
      { k with
        tls := k.tls.guard
        stack := .wrapper (if k.tls.guard.isRecursiveCall then .recursive else .locking) :: rest }
  | .wrapper .recursive :: rest => { k with tls := k.tls.unguard, stack := rest }
  | .wrapper .locking :: rest => k.lock (.wrapper .locked :: rest)
  | .wrapper .locked :: rest => { k with stack := .wrapper .unlocked :: rest, huMutex := false }
  | .wrapper .unlocked :: rest => { k with tls := k.tls.unguard, stack := rest }
  | .huReport :: rest => { k with tls := k.tls.huSetBypass false, stack := rest }
  | .huSigHandler :: rest =>
      { k with tls := k.tls.huSetBypass false, stack := .huFini .started :: .huSigHandler :: rest }
  | .huFini .started :: rest =>
      { k with tls := k.tls.huSetBypass true, stack := .huFini .locking :: rest }
  | .huFini .locking :: rest => k.lock (.huFini .locked :: rest)
  | .huFini .locked :: rest => { k with stack := .huFini .unlocked :: rest, huMutex := false }
  | .huFini .unlocked :: rest =>
      { k with tls := k.tls.huSetBypass false, stack := .huFini .finished :: rest }
  | .huFini .finished :: _ => k

def next (k : Control) : Signal → Control
  | .call => if k.tls.huBypass then k else { k with stack := .wrapper .passed :: k.stack }
  | .report => { k with tls := k.tls.huSetBypass true, stack := .huReport :: k.stack }
  | .sigsegv => { k with tls := k.tls.huSetBypass true, stack := .huSigHandler :: k.stack }
  | .exit => { k with stack := .huFini .started :: k.stack }
  | .go => k.go

/-- The topmost frame is at `hu_mutex->lock()`. -/
def asksForLock (k : Control) : Bool :=
  match k.stack with
  | .wrapper .locking :: _ => true
  | .huFini .locking :: _ => true
  | _ => false

/-- `lock()` is executed by the thread that holds the lock. -/
def Relocks (k : Control) (i : Signal) : Prop :=
  i = .go ∧ k.asksForLock = true ∧ k.huMutex = true

instance (k : Control) (i : Signal) : Decidable (k.Relocks i) :=
  inferInstanceAs (Decidable (_ ∧ _ ∧ _))

/-- A wrapper called by a thread that is tracked comes to the lock. -/
theorem call_tracked {k : Control} (h : k.tls.tracks = true) :
    exec next k [.call, .go] =
      { k with tls := k.tls.guard, stack := .wrapper .locking :: k.stack } := by
  obtain ⟨hbypass, hcount⟩ := ThreadLocal.tracks_iff.mp h
  have hrec : k.tls.guard.isRecursiveCall = false := by
    simp [ThreadLocal.isRecursiveCall, ThreadLocal.guard, hcount]
  simp only [exec_cons, exec_nil, next, hbypass, Bool.false_eq_true, if_false, go, hrec]

/-! ## §2 What lies below what -/

/-- The recursion guards alive in a stack. -/
def guards : List Frame → Nat
  | [] => 0
  | .wrapper .passed :: rest => guards rest
  | .wrapper _ :: rest => guards rest + 1
  | _ :: rest => guards rest

/-- A frame of the stack holds the lock. -/
def holds : List Frame → Bool
  | [] => false
  | .wrapper .locked :: _ => true
  | .huFini .locked :: _ => true
  | _ :: rest => holds rest

/-- Below frames that return, `hu_fini` has set `hu_bypass` and has not released
the lock yet. Frames that never return are `hu_sig_handler` and `hu_fini`. -/
def finalising : List Frame → Bool
  | [] => false
  | .huFini .locking :: _ => true
  | .huFini .locked :: _ => true
  | .huFini _ :: _ => false
  | .huSigHandler :: _ => false
  | _ :: rest => finalising rest

/-- What a frame needs of the stack below it. -/
def Fits (rest : List Frame) : Frame → Prop
  | .wrapper .passed => finalising rest = true → 0 < guards rest
  | .wrapper .recursive => 0 < guards rest
  | .wrapper _ => finalising rest = false ∧ holds rest = false
  | .huReport => finalising rest = true → 0 < guards rest
  | .huSigHandler => holds rest = false
  | .huFini _ => holds rest = false

/-- Every frame has what it needs. -/
def Stacked : List Frame → Prop
  | [] => True
  | f :: rest => Fits rest f ∧ Stacked rest

/-- The lock is held by a guarded wrapper, or by `hu_fini` with nothing above
it that does not return. -/
theorem Stacked.of_holds {stack : List Frame} (h : Stacked stack) (hholds : holds stack = true) :
    0 < guards stack ∨ finalising stack = true := by
  induction stack with
  | nil => cases hholds
  | cons f rest ih =>
    obtain ⟨hfits, hrest⟩ := h
    cases f with
    | wrapper stage =>
      cases stage with
      | passed => exact ih hrest hholds
      | recursive => exact .inl (Nat.succ_pos _)
      | locking => exact .inl (Nat.succ_pos _)
      | locked => exact .inl (Nat.succ_pos _)
      | unlocked => exact .inl (Nat.succ_pos _)
    | huReport => exact ih hrest hholds
    | huSigHandler =>
      have hnone : holds rest = false := hfits
      simp only [holds, hnone, Bool.false_eq_true] at hholds
    | huFini stage =>
      have hnone : holds rest = false := hfits
      cases stage with
      | locked => exact .inr rfl
      | started => simp only [holds, hnone, Bool.false_eq_true] at hholds
      | locking => simp only [holds, hnone, Bool.false_eq_true] at hholds
      | unlocked => simp only [holds, hnone, Bool.false_eq_true] at hholds
      | finished => simp only [holds, hnone, Bool.false_eq_true] at hholds

/-- The invariant of a thread. -/
structure Inv (k : Control) : Prop where
  count : k.tls.huCallcount = guards k.stack
  mutex : k.huMutex = holds k.stack
  stacked : Stacked k.stack
  bypass : finalising k.stack = true → k.tls.huBypass = true ∨ 0 < guards k.stack

/-- The steps considered: no exit begins while the thread holds the lock, and
no report while `hu_fini` is between setting `hu_bypass` and releasing the
lock, unless a recursion guard is alive. -/
def Safe (k : Control) : Signal → Prop
  | .sigsegv => k.huMutex = false
  | .exit => k.huMutex = false
  | .report => finalising k.stack = true → k.tls.huCallcount ≠ 0
  | _ => True

instance (k : Control) : DecidablePred k.Safe
  | .sigsegv => inferInstanceAs (Decidable (_ = _))
  | .exit => inferInstanceAs (Decidable (_ = _))
  | .report => inferInstanceAs (Decidable (_ → _))
  | .call => inferInstanceAs (Decidable True)
  | .go => inferInstanceAs (Decidable True)

namespace Inv

variable {k : Control}

theorem start (bypass saved : Bool) : Inv (.start bypass saved) :=
  ⟨rfl, rfl, trivial, fun h => Bool.noConfusion h⟩

/-- Whoever is at `lock()` does not hold it. -/
theorem not_relocks (h : Inv k) (i : Signal) : ¬ k.Relocks i := by
  intro ⟨_, hasks, hmutex⟩
  obtain ⟨tls, stack, huMutex⟩ := k
  have hstacked : Stacked stack := h.stacked
  have hholds : holds stack = true := by rw [← hmutex]; exact h.mutex.symm
  cases stack with
  | nil => cases hasks
  | cons f rest =>
    cases f with
    | wrapper stage =>
      cases stage with
      | locking =>
        have hnone : holds rest = false := hstacked.1.2
        simp only [holds, hnone, Bool.false_eq_true] at hholds
      | passed => cases hasks
      | recursive => cases hasks
      | locked => cases hasks
      | unlocked => cases hasks
    | huReport => cases hasks
    | huSigHandler => cases hasks
    | huFini stage =>
      cases stage with
      | locking =>
        have hnone : holds rest = false := hstacked.1
        simp only [holds, hnone, Bool.false_eq_true] at hholds
      | started => cases hasks
      | locked => cases hasks
      | unlocked => cases hasks
      | finished => cases hasks

/-- Nothing below the topmost frame is at the lock when that one takes it. -/
theorem lock (h : Inv k) {f g : Frame} {rest : List Frame} (hk : k.stack = f :: rest)
    (hnone : holds rest = false) (hf : holds (f :: rest) = holds rest)
    (hholds : holds (g :: rest) = true) (hguards : guards (g :: rest) = guards (f :: rest))
    (hfinal : finalising (g :: rest) = finalising (f :: rest)) (hfits : Fits rest g) :
    Inv (k.lock (g :: rest)) := by
  have hfree : k.huMutex = false := by rw [h.mutex, hk, hf, hnone]
  have hstacked := h.stacked
  have hbypass := h.bypass
  rw [hk] at hstacked hbypass
  rw [Control.lock, hfree, if_neg Bool.false_ne_true]
  refine ⟨?_, hholds.symm, ⟨hfits, hstacked.2⟩, ?_⟩
  · show k.tls.huCallcount = guards (g :: rest)
    rw [hguards, ← hk, h.count]
  · show finalising (g :: rest) = true → k.tls.huBypass = true ∨ 0 < guards (g :: rest)
    rw [hguards, hfinal]
    exact hbypass

/-- A wrapper passes its recursion guard. -/
theorem go_passed (h : Inv k) {rest : List Frame} (hk : k.stack = .wrapper .passed :: rest) :
    Inv k.go := by
  have hcount := h.count
  have hmutex := h.mutex
  have hstacked := h.stacked
  rw [hk] at hcount hmutex hstacked
  obtain ⟨hfits, hrest⟩ := hstacked
  simp only [Fits] at hfits
  have hguard : k.tls.guard.huCallcount = guards rest + 1 := congrArg (· + 1) hcount
  simp only [Control.go, hk]
  cases hrec : k.tls.guard.isRecursiveCall with
  | true =>
    have hpos : 0 < guards rest := by
      have hgt : k.tls.guard.huCallcount > 1 := of_decide_eq_true hrec
      omega
    exact ⟨hguard, hmutex, ⟨hpos, hrest⟩, fun _ => .inr (Nat.succ_pos _)⟩
  | false =>
    have hzero : guards rest = 0 := by
      have hle : ¬ k.tls.guard.huCallcount > 1 := of_decide_eq_false hrec
      omega
    have hfinal : finalising rest = false := by
      cases hf : finalising rest with
      | false => rfl
      | true => exact absurd (hfits hf) (by omega)
    have hnone : holds rest = false := by
      cases hh : holds rest with
      | false => rfl
      | true =>
        rcases hrest.of_holds hh with hpos | hf
        · omega
        · rw [hfinal] at hf
          cases hf
    exact ⟨hguard, hmutex, ⟨⟨hfinal, hnone⟩, hrest⟩, fun _ => .inr (Nat.succ_pos _)⟩

/-- A wrapper returns and its recursion guard is gone. -/
theorem go_return (h : Inv k) {f : Frame} {rest : List Frame} (hk : k.stack = f :: rest)
    (hguards : guards (f :: rest) = guards rest + 1) (hholds : holds (f :: rest) = holds rest)
    (hfinal : finalising rest = true → 0 < guards rest) :
    Inv { k with tls := k.tls.unguard, stack := rest } := by
  have hcount := h.count
  have hmutex := h.mutex
  have hstacked := h.stacked
  rw [hk] at hcount hmutex hstacked
  refine ⟨?_, hmutex.trans hholds, hstacked.2, fun hf => .inr (hfinal hf)⟩
  show k.tls.huCallcount - 1 = guards rest
  rw [hcount, hguards, Nat.add_sub_cancel]

/-- **The topmost frame goes on.** -/
theorem go (h : Inv k) : Inv k.go := by
  obtain ⟨tls, stack, huMutex⟩ := k
  cases stack with
  | nil => exact h
  | cons f rest =>
    have hcount : tls.huCallcount = guards (f :: rest) := h.count
    have hmutex : huMutex = holds (f :: rest) := h.mutex
    obtain ⟨hfits, hrest⟩ : Fits rest f ∧ Stacked rest := h.stacked
    cases f with
    | wrapper stage =>
      cases stage with
      | passed => exact h.go_passed rfl
      | recursive => exact h.go_return rfl rfl rfl (fun _ => hfits)
      | locking => exact h.lock rfl hfits.2 rfl rfl rfl rfl hfits
      | locked =>
        exact ⟨hcount, hfits.2.symm, ⟨hfits, hrest⟩, fun _ => .inr (Nat.succ_pos _)⟩
      | unlocked =>
        refine h.go_return rfl rfl rfl fun hf => ?_
        rw [hfits.1] at hf
        cases hf
    | huReport => exact ⟨hcount, hmutex, hrest, fun hf => .inr (hfits hf)⟩
    | huSigHandler => exact ⟨hcount, hmutex, ⟨hfits, hfits, hrest⟩, fun hf => Bool.noConfusion hf⟩
    | huFini stage =>
      cases stage with
      | started => exact ⟨hcount, hmutex, ⟨hfits, hrest⟩, fun _ => .inl rfl⟩
      | locking => exact h.lock rfl hfits rfl rfl rfl rfl hfits
      | locked => exact ⟨hcount, hfits.symm, ⟨hfits, hrest⟩, fun hf => Bool.noConfusion hf⟩
      | unlocked => exact ⟨hcount, hmutex, ⟨hfits, hrest⟩, fun hf => Bool.noConfusion hf⟩
      | finished => exact ⟨hcount, hmutex, ⟨hfits, hrest⟩, fun hf => Bool.noConfusion hf⟩

/-- **A safe step keeps the invariant.** -/
theorem next (h : Inv k) {i : Signal} (hi : k.Safe i) : Inv (k.next i) := by
  have hcount := h.count
  cases i with
  | call =>
    simp only [Control.next]
    cases hbypass : k.tls.huBypass with
    | true => exact h
    | false =>
      refine ⟨hcount, h.mutex, ⟨fun hf => ?_, h.stacked⟩, h.bypass⟩
      refine (h.bypass hf).resolve_left ?_
      rw [hbypass]
      exact Bool.false_ne_true
  | report =>
    refine ⟨hcount, h.mutex, ⟨fun hf => ?_, h.stacked⟩, fun _ => .inl rfl⟩
    have hne : k.tls.huCallcount ≠ 0 := hi hf
    omega
  | sigsegv =>
    have hnone : holds k.stack = false := h.mutex.symm.trans hi
    exact ⟨hcount, h.mutex, ⟨hnone, h.stacked⟩, fun hf => Bool.noConfusion hf⟩
  | exit =>
    have hnone : holds k.stack = false := h.mutex.symm.trans hi
    exact ⟨hcount, h.mutex, ⟨hnone, h.stacked⟩, fun hf => Bool.noConfusion hf⟩
  | go => exact h.go

end Inv

/-! ## §3 No thread waits for itself -/

end Control

/-- **No self-deadlock** in a run whose exits begin while the thread does not
hold the lock and whose reports do not fall into the locked part of `hu_fini`:
`lock()` is never executed by the thread that holds the lock. -/
theorem never_relocks (bypass saved : Bool) (is : List Signal)
    (hrun : Along Control.next Control.Safe (.start bypass saved) is) :
    Along Control.next (fun k i => ¬ k.Relocks i) (.start bypass saved) is :=
  Along.mono (fun _ _ h hi => Control.Inv.next h hi) (fun _ i h _ => h.not_relocks i) is _
    (Control.Inv.start bypass saved) hrun

/-- A nested call, a report inside it, and an exit after both: the summary of
`hu_fini` then calls a wrapper. -/
theorem never_relocks_exit :
    Along Control.next (fun k i => ¬ k.Relocks i) (.start false false)
      [.call, .go, .go, .call, .go, .report, .go, .go, .go, .go, .exit, .go, .go, .call, .go] :=
  never_relocks false false _ (by decide)

/-- `hu_mprotect` gives up inside a wrapper, and `hu_fini` waits for the wrapper. -/
theorem mprotect_exit_relocks :
    ¬ Along Control.next (fun k i => ¬ k.Relocks i) (.start false false)
      [.call, .go, .go, .exit, .go, .go] := by
  decide

/-! ## §4 Unsafe steps -/

namespace Control

/-- Some continuation ends at a lock the thread holds. -/
def Doomed (k : Control) : Prop := ∃ is, ¬ Along next (fun k i => ¬ k.Relocks i) k is

namespace Doomed

variable {k : Control}

theorem of_relocks (h : k.Relocks .go) : Doomed k := ⟨[.go], fun hrun => hrun.1 h⟩

theorem of_exec (is : List Signal) (h : Doomed (exec next k is)) : Doomed k := by
  obtain ⟨js, hjs⟩ := h
  exact ⟨is ++ js, fun hrun => hjs ((along_append is js k).mp hrun).2⟩

/-- A thread that holds the lock and is tracked need only call a wrapper. -/
theorem of_tracked (hmutex : k.huMutex = true) (htracks : k.tls.tracks = true) : Doomed k := by
  refine of_exec [.call, .go] ?_
  rw [call_tracked htracks]
  exact of_relocks ⟨rfl, rfl, hmutex⟩

/-- A thread that is tracked while `hu_fini` is about to lock, or has locked:
the frames above `hu_fini` return, `hu_fini` locks, the summary calls a wrapper. -/
theorem of_finalising (stack : List Frame) : ∀ k : Control, k.stack = stack →
    finalising stack = true → guards stack = 0 → k.huMutex = holds stack →
    k.tls.tracks = true → Doomed k := by
  induction stack with
  | nil => intro k _ hf _ _ _; cases hf
  | cons f rest ih =>
    intro k hk hf hguards hmutex htracks
    obtain ⟨hbypass, hcount⟩ := ThreadLocal.tracks_iff.mp htracks
    cases f with
    | wrapper stage =>
      cases stage with
      | passed =>
        have hrec : k.tls.guard.isRecursiveCall = false := by
          simp [ThreadLocal.isRecursiveCall, ThreadLocal.guard, hcount]
        have hgo : k.go =
            { k with tls := k.tls.guard, stack := .wrapper .locking :: rest } := by
          simp only [go, hk, hrec, Bool.false_eq_true, if_false]
        refine of_exec [.go] ?_
        rw [exec_cons, exec_nil, next, hgo]
        cases hheld : k.huMutex with
        | true => exact of_relocks ⟨rfl, rfl, rfl⟩
        | false =>
          refine of_exec [.go, .go, .go] ?_
          exact ih _ rfl hf hguards (hheld.symm.trans hmutex) htracks
      | recursive => cases hguards
      | locking => cases hguards
      | locked => cases hguards
      | unlocked => cases hguards
    | huReport =>
      refine of_exec [.go] ?_
      simp only [exec_cons, exec_nil, next, go, hk]
      exact ih _ rfl hf hguards hmutex (ThreadLocal.tracks_iff.mpr ⟨rfl, hcount⟩)
    | huSigHandler => cases hf
    | huFini stage =>
      cases stage with
      | locked => exact of_tracked hmutex htracks
      | locking =>
        cases hheld : k.huMutex with
        | true => exact of_relocks ⟨rfl, by simp only [asksForLock, hk], hheld⟩
        | false =>
          refine of_exec [.go] ?_
          simp only [exec_cons, exec_nil, next, go, hk, lock, hheld, Bool.false_eq_true, if_false]
          exact of_tracked rfl htracks
      | started => cases hf
      | unlocked => cases hf
      | finished => cases hf

end Doomed

end Control

/-- **Every other step leads to it**: after a safe run, a step that is not safe
can be continued to a `lock()` by the thread that holds the lock. -/
theorem unsafe_relocks (bypass saved : Bool) (is : List Signal)
    (hrun : Along Control.next Control.Safe (.start bypass saved) is) (i : Signal)
    (hi : ¬ (exec Control.next (.start bypass saved) is).Safe i) :
    ((exec Control.next (.start bypass saved) is).next i).Doomed := by
  have hinv : (exec Control.next (.start bypass saved) is).Inv :=
    Along.invariant (fun k _ (h : Control.Inv k) hi => h.next hi) is _
      (Control.Inv.start bypass saved) hrun
  revert hinv hi
  generalize exec Control.next (.start bypass saved) is = k
  intro hi hinv
  cases i with
  | call => exact absurd trivial hi
  | go => exact absurd trivial hi
  | sigsegv =>
    have hheld : k.huMutex = true := by simpa [Control.Safe] using hi
    exact .of_exec [.go, .go] (.of_relocks ⟨rfl, rfl, hheld⟩)
  | exit =>
    have hheld : k.huMutex = true := by simpa [Control.Safe] using hi
    exact .of_exec [.go] (.of_relocks ⟨rfl, rfl, hheld⟩)
  | report =>
    obtain ⟨hf, hcount⟩ : Control.finalising k.stack = true ∧ k.tls.huCallcount = 0 := by
      simpa [Control.Safe] using hi
    refine .of_exec [.go] (.of_finalising k.stack _ rfl hf ?_ hinv.mutex ?_)
    · rw [← hinv.count, hcount]
    · exact ThreadLocal.tracks_iff.mpr ⟨rfl, hcount⟩

end Heapusage
