/-
Heapusage.Main.HuMain — `humain.cpp`: configuration, the guards and the four
wrappers the program under analysis calls.

The wrappers share their prologue (`hu_bypass`, the recursion guard, the lock)
and differ in what follows, so each is `guarded` applied to its own call of
the C library and its own tracked body. The guard and the lock are released
when a wrapper returns; what a thread keeps between calls is in `ThreadLocal`,
and the lock is modelled where several threads are (`Main.Process`,
`Main.Control`). A tracked body is an allocator call followed by log events
(`tracked_eq`): the proofs treat the two parts apart.

The Linux wrappers are modelled; the macOS ones have the same text.
-/
import Heapusage.Malloc.HuMalloc

namespace Heapusage

/-! ## Configuration and `hu_init` -/

/-- What `hu_init` reads from the environment, and the system parameters the
modules ask for. -/
structure HuConfig where
  huDoublefree : Bool
  huLeak : Bool
  huOverflow : Bool
  huUseafterfree : Bool
  huMinsize : Nat
  huLogRepeat : Bool
  huPageSize : Nat
  huQuarantineMaxSize : Nat
  maxMapCount : Nat
  logWritable : Bool
  objfile : Nat → String

/-- The arguments of `log_init`. -/
def HuConfig.logConfig (c : HuConfig) : LogConfig where
  huLogFree := c.huDoublefree
  huLogMinleak := c.huMinsize
  huUseafterfree := c.huUseafterfree
  huLeak := c.huLeak
  huLogRepeat := c.huLogRepeat
  huPageSize := c.huPageSize
  logWritable := c.logWritable
  objfile := c.objfile

/-- The arguments of `hu_malloc_init`. -/
def HuConfig.mallocConfig (c : HuConfig) : MallocConfig where
  huOverflow := c.huOverflow
  huUseafterfree := c.huUseafterfree
  huMinsize := c.huMinsize
  huPageSize := c.huPageSize
  huQuarantineMaxSize := c.huQuarantineMaxSize
  maxMapCount := c.maxMapCount

/-- `hu_enable_humalloc` -/
def HuConfig.huEnableHumalloc (c : HuConfig) : Bool := c.huOverflow || c.huUseafterfree

/-- The state after `hu_init`. The blocks of the tool itself are left out of
the system heap: all they do is make fewer answers admissible. -/
def huInit (c : HuConfig) : HuState where
  sys := SysHeap.init
  mal := if c.huEnableHumalloc then huMallocInit mallocStart else mallocStart
  log := logEnable true logInit

/-- The tools by name, with a page of 4096 bytes and no room in the quarantine. -/
def HuConfig.tools (doublefree overflow useafterfree : Bool) (minsize : Nat) : HuConfig where
  huDoublefree := doublefree
  huLeak := true
  huOverflow := overflow
  huUseafterfree := useafterfree
  huMinsize := minsize
  huLogRepeat := false
  huPageSize := 4096
  huQuarantineMaxSize := 0
  maxMapCount := 65530
  logWritable := true
  objfile := fun _ => ""

/-! ## Guards -/

/-- The thread-local variables. -/
structure ThreadLocal where
  huBypass : Bool
  huBypassSaved : Bool
  huCallcount : Nat
  deriving DecidableEq, Repr

/-- A new thread. -/
def ThreadLocal.fresh : ThreadLocal := ⟨false, false, 0⟩

/-- The constructor of `hu_recursion_guard`. -/
def ThreadLocal.guard (t : ThreadLocal) : ThreadLocal :=
  { t with huCallcount := t.huCallcount + 1 }

/-- The destructor of `hu_recursion_guard`. -/
def ThreadLocal.unguard (t : ThreadLocal) : ThreadLocal :=
  { t with huCallcount := t.huCallcount - 1 }

/-- `is_recursive_call` -/
def ThreadLocal.isRecursiveCall (t : ThreadLocal) : Bool := t.huCallcount > 1

/-- The wrapper goes on to take the lock: neither bypassed nor recursive. -/
def ThreadLocal.tracks (t : ThreadLocal) : Bool :=
  if t.huBypass then false
  else if t.guard.isRecursiveCall then false
  else true

/-! ## Calls -/

/-- A call of one of the four wrappers. -/
inductive Call where
  | malloc (size : Nat)
  | free (ptr : Nat)
  | calloc (nmemb size : Nat)
  | realloc (ptr : Nat) (size : Nat)
  deriving DecidableEq, Repr

/-- What the environment supplies during a call: the answers of the system and
the callstacks `backtrace` captures for the two events. -/
structure CallEnv where
  ans : SysAns
  allocStack : Callstack
  freeStack : Callstack

/-- The system offers the address `p`, and `mprotect` succeeds. -/
def CallEnv.answering (p : Nat) : CallEnv where
  ans := ⟨p, fun _ => 0, fun _ _ _ => true⟩
  allocStack := [1, 2]
  freeStack := [1, 3]

/-- `log_event` on the tool state. -/
def HuState.logEvent (c : HuConfig) (event : Event) (ptr : Nat) (size : Nat)
    (callstack : Callstack) (s : HuState) : HuState :=
  { s with log := Heapusage.logEvent c.logConfig event ptr size callstack s.log }

/-- The prologue of every wrapper. -/
def guarded (t : ThreadLocal) (libc tracked : HuState → HuState × Nat) (s : HuState) :
    HuState × Nat :=
  if t.huBypass then libc s
  else if t.guard.isRecursiveCall then libc s
  else tracked s

/-- `malloc` -/
def malloc (c : HuConfig) (e : CallEnv) (size : Nat) (t : ThreadLocal) :
    HuState → HuState × Nat :=
  guarded t (·.libcMalloc e.ans size) fun s =>
    let r :=
      if c.huEnableHumalloc then huMalloc c.mallocConfig e.ans size s
      else s.libcMalloc e.ans size
    (if size > 0 then r.1.logEvent c .malloc r.2 size e.allocStack else r.1, r.2)

/-- `free` -/
def free (c : HuConfig) (e : CallEnv) (ptr : Nat) (t : ThreadLocal) :
    HuState → HuState × Nat :=
  guarded t (fun s => (s.libcFree ptr, 0)) fun s =>
    let s :=
      if c.huEnableHumalloc then huFree c.mallocConfig c.logConfig e.ans ptr s
      else s.libcFree ptr
    (s.logEvent c .free ptr 0 e.freeStack, 0)

/-- `calloc` -/
def calloc (c : HuConfig) (e : CallEnv) (nmemb size : Nat) (t : ThreadLocal) :
    HuState → HuState × Nat :=
  guarded t (·.libcCalloc e.ans nmemb size) fun s =>
    let r :=
      if c.huEnableHumalloc then huCalloc c.mallocConfig e.ans nmemb size s
      else s.libcCalloc e.ans nmemb size
    (if nmemb > 0 ∧ size > 0 then
        r.1.logEvent c .malloc r.2 (Words.mul 64 nmemb size) e.allocStack
      else r.1, r.2)

/-- `realloc` -/
def realloc (c : HuConfig) (e : CallEnv) (ptr : Nat) (size : Nat) (t : ThreadLocal) :
    HuState → HuState × Nat :=
  guarded t (·.libcRealloc e.ans ptr size) fun s =>
    let r :=
      if c.huEnableHumalloc then huRealloc c.mallocConfig c.logConfig e.ans ptr size s
      else s.libcRealloc e.ans ptr size
    let s := if ptr ≠ 0 then r.1.logEvent c .free ptr 0 e.freeStack else r.1
    (if size ≠ 0 then s.logEvent c .malloc r.2 size e.allocStack else s, r.2)

/-- A call of a wrapper by a thread in state `t`. `free` answers null. -/
def wrapper (c : HuConfig) (e : CallEnv) (t : ThreadLocal) : Call → HuState → HuState × Nat
  | .malloc size => malloc c e size t
  | .free ptr => free c e ptr t
  | .calloc nmemb size => calloc c e nmemb size t
  | .realloc ptr size => realloc c e ptr size t

/-! ## The two halves of a tracked call -/

/-- The call handed to the C library. -/
def libcCall (ans : SysAns) : Call → HuState → HuState × Nat
  | .malloc size => (·.libcMalloc ans size)
  | .free ptr => fun s => (s.libcFree ptr, 0)
  | .calloc nmemb size => (·.libcCalloc ans nmemb size)
  | .realloc ptr size => (·.libcRealloc ans ptr size)

/-- The call handed to the fenced allocator. -/
def huCall (c : MallocConfig) (lc : LogConfig) (ans : SysAns) : Call → HuState → HuState × Nat
  | .malloc size => huMalloc c ans size
  | .free ptr => fun s => (huFree c lc ans ptr s, 0)
  | .calloc nmemb size => huCalloc c ans nmemb size
  | .realloc ptr size => huRealloc c lc ans ptr size

/-- The allocator half: `hu_enable_humalloc ? hu_… : __libc_…`. -/
def allocHalf (c : HuConfig) (ans : SysAns) (call : Call) (s : HuState) : HuState × Nat :=
  if c.huEnableHumalloc then huCall c.mallocConfig c.logConfig ans call s
  else libcCall ans call s

/-- The log events of a call that returned `q`. -/
def logHalf (c : HuConfig) (e : CallEnv) (q : Nat) : Call → HuState → HuState
  | .malloc size => fun s => if size > 0 then s.logEvent c .malloc q size e.allocStack else s
  | .free ptr => fun s => s.logEvent c .free ptr 0 e.freeStack
  | .calloc nmemb size => fun s =>
      if nmemb > 0 ∧ size > 0 then s.logEvent c .malloc q (Words.mul 64 nmemb size) e.allocStack
      else s
  | .realloc ptr size => fun s =>
      let s := if ptr ≠ 0 then s.logEvent c .free ptr 0 e.freeStack else s
      if size ≠ 0 then s.logEvent c .malloc q size e.allocStack else s

/-- A wrapper either hands the call to the C library or runs the allocator
half and then the log half. -/
theorem wrapper_eq (c : HuConfig) (e : CallEnv) (t : ThreadLocal) (call : Call) (s : HuState) :
    wrapper c e t call s =
      if t.tracks then
        (logHalf c e (allocHalf c e.ans call s).2 call (allocHalf c e.ans call s).1,
          (allocHalf c e.ans call s).2)
      else libcCall e.ans call s := by
  have hroute : ∀ libc tracked : HuState → HuState × Nat,
      guarded t libc tracked s = if t.tracks then tracked s else libc s := by
    intro libc tracked
    unfold guarded ThreadLocal.tracks
    cases t.huBypass <;> cases t.guard.isRecursiveCall <;> rfl
  cases call with
  | malloc size =>
    simp only [wrapper, malloc, hroute, libcCall, logHalf, allocHalf, huCall]
  | free ptr =>
    simp only [wrapper, free, hroute, libcCall, logHalf, allocHalf, huCall]
    split <;> rename_i h <;> cases c.huEnableHumalloc <;> rfl
  | calloc nmemb size =>
    simp only [wrapper, calloc, hroute, libcCall, logHalf, allocHalf, huCall]
  | realloc ptr size =>
    simp only [wrapper, realloc, hroute, libcCall, logHalf, allocHalf, huCall]

/-- A thread that is in no wrapper and not bypassed. -/
theorem ThreadLocal.fresh_tracks : ThreadLocal.fresh.tracks = true := rfl

theorem tracked_eq (c : HuConfig) (e : CallEnv) (call : Call) (s : HuState) :
    wrapper c e .fresh call s =
      (logHalf c e (allocHalf c e.ans call s).2 call (allocHalf c e.ans call s).1,
        (allocHalf c e.ans call s).2) := by
  rw [wrapper_eq, if_pos ThreadLocal.fresh_tracks]

end Heapusage
