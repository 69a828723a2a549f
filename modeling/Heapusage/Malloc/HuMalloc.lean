/-
Heapusage.Malloc.HuMalloc — `humalloc.cpp`: the fenced allocator with its
quarantine.

The allocator works on the whole tool state `HuState`: it calls the system
heap, and an eviction removes a record of the log (`hu_free` calls
`hu_log_remove_freed_allocation`). Calls of `malloc`, `free`, `calloc` and
`realloc` from inside the allocator are recursive calls of the wrappers,
which the recursion guard sends to the C library, so they are modelled as
calls of the C library.

Size arithmetic is 64-bit. `hu_mprotect` may fail; past half of
`max_map_count` calls a failure runs `exit(1)`, which the model records in
`exitRequested` (the statements after it are never reached, so every fact
about the states the model goes on to is a fact about more states than occur).
-/
import Heapusage.Log.HuLog

namespace Heapusage

open Tables

/-- The file-global configuration `hu_malloc_init` sets, and
`/proc/sys/vm/max_map_count`. -/
structure MallocConfig where
  huOverflow : Bool
  huUseafterfree : Bool
  huMinsize : Nat
  huPageSize : Nat
  huQuarantineMaxSize : Nat
  maxMapCount : Nat
  deriving DecidableEq, Repr

/-- `hu_size_multiple`: `2 * sizeof(void*)` -/
def huSizeMultiple : Nat := 16

/-- `hu_alloc_info` -/
structure HuAllocInfo where
  userPtr : Nat
  userSize : Nat
  sysPtr : Nat
  sysSize : Nat
  deriving DecidableEq, Repr

/-- The file-global state of `humalloc.cpp`. The front of the queue is the
head of the list. -/
structure MallocState where
  huMallocInited : Bool
  huUserAddrs : Finset Nat
  huActiveAllocs : Table Nat HuAllocInfo
  huQuarantineAllocs : List HuAllocInfo
  huQuarantineSize : Nat
  huQuarantineEvicted : Bool
  mprotectCallcount : Nat
  exitRequested : Bool

/-- The state before `hu_malloc_init`. -/
def mallocStart : MallocState where
  huMallocInited := false
  huUserAddrs := ∅
  huActiveAllocs := ∅
  huQuarantineAllocs := []
  huQuarantineSize := 0
  huQuarantineEvicted := false
  mprotectCallcount := 0
  exitRequested := false

/-- `hu_malloc_init`; its parameters are in `MallocConfig`. -/
def huMallocInit (m : MallocState) : MallocState :=
  { m with
    huUserAddrs := ∅
    huActiveAllocs := ∅
    huQuarantineAllocs := []
    huMallocInited := true }

/-- The system heap and the state of the two modules of the tool. -/
structure HuState where
  sys : SysHeap
  mal : MallocState
  log : LogState

/-! ## Sizes -/

/-- `hu_round_up` -/
def huRoundUp (numToRound multiple : Nat) : Nat :=
  if multiple = 0 then numToRound
  else
    let remainder := numToRound % multiple
    if remainder = 0 then numToRound
    else Words.sub 64 (Words.add 64 numToRound multiple) remainder

/-- `hu_calc_user_size` -/
def huCalcUserSize (userSize : Nat) : Nat := huRoundUp userSize huSizeMultiple

/-- `hu_calc_sys_size` -/
def huCalcSysSize (c : MallocConfig) (userSize : Nat) : Nat :=
  Words.add 64 (huRoundUp userSize c.huPageSize) (if c.huOverflow then c.huPageSize else 0)

/-! ## Calls into the system -/

namespace HuState

def libcMalloc (ans : SysAns) (size : Nat) (s : HuState) : HuState × Nat :=
  let r := s.sys.libcMalloc ans size
  ({ s with sys := r.1 }, r.2)

def libcFree (p : Nat) (s : HuState) : HuState := { s with sys := s.sys.libcFree p }

def libcCalloc (ans : SysAns) (nmemb size : Nat) (s : HuState) : HuState × Nat :=
  let r := s.sys.libcCalloc ans nmemb size
  ({ s with sys := r.1 }, r.2)

def libcRealloc (ans : SysAns) (p size : Nat) (s : HuState) : HuState × Nat :=
  let r := s.sys.libcRealloc ans p size
  ({ s with sys := r.1 }, r.2)

end HuState

/-- `hu_mprotect` -/
def huMprotect (c : MallocConfig) (ans : SysAns) (addr len : Nat) (prot : Prot)
    (s : HuState) : HuState :=
  let callcount := s.mal.mprotectCallcount + 1
  let r := s.sys.mprotect ans addr len prot
  { s with
    sys := r.1
    mal := { s.mal with
      mprotectCallcount := callcount
      exitRequested :=
        s.mal.exitRequested || (!r.2 && decide (callcount > c.maxMapCount / 2)) } }

/-! ## `hu_malloc` -/

/-- `hu_get_allocinfo` -/
def huGetAllocinfo (userPtr : Nat) (m : MallocState) : Option HuAllocInfo :=
  m.huActiveAllocs.lookup userPtr

/-- The record of a fenced block whose region starts at `sysPtr`. -/
def allocInfoAt (c : MallocConfig) (userSize : Nat) (sysPtr : Nat) : HuAllocInfo :=
  let roundedUserSize := huCalcUserSize userSize
  let sysSize := huCalcSysSize c roundedUserSize
  let postFencePtr :=
    if c.huOverflow then Words.sub 64 (Words.add 64 sysPtr sysSize) c.huPageSize else 0
  { userPtr :=
      if c.huOverflow ∧ postFencePtr ≠ 0 then Words.sub 64 postFencePtr roundedUserSize
      else sysPtr
    userSize := userSize
    sysPtr := sysPtr
    sysSize := sysSize }

/-- `Store allocation details`: neither insertion overwrites. -/
def storeAllocInfo (info : HuAllocInfo) (s : HuState) : HuState :=
  { s with mal := { s.mal with
      huActiveAllocs := insertNew info.userPtr info s.mal.huActiveAllocs
      huUserAddrs := insert info.userPtr s.mal.huUserAddrs } }

/-- `hu_malloc` -/
def huMalloc (c : MallocConfig) (ans : SysAns) (userSize : Nat) (s : HuState) :
    HuState × Nat :=
  if !s.mal.huMallocInited then s.libcMalloc ans userSize
  else if userSize = 0 then s.libcMalloc ans userSize
  else if userSize < c.huMinsize then s.libcMalloc ans userSize
  else
    let sysSize := huCalcSysSize c (huCalcUserSize userSize)
    let r := s.sys.posixMemalign ans c.huPageSize sysSize
    let s := { s with sys := r.1 }
    if r.2 = 0 then (s, 0)
    else
      let info := allocInfoAt c userSize r.2
      let postFencePtr := Words.sub 64 (Words.add 64 r.2 sysSize) c.huPageSize
      let s := if c.huOverflow then huMprotect c ans postFencePtr c.huPageSize .none s else s
      (storeAllocInfo info s, info.userPtr)

/-! ## `hu_free` -/

/-- One turn of the eviction loop: the front of the queue goes back to the system. -/
def evictFront (c : MallocConfig) (lc : LogConfig) (ans : SysAns) (info : HuAllocInfo)
    (s : HuState) : HuState :=
  let s := { s with mal := { s.mal with
    huQuarantineEvicted := true
    huQuarantineAllocs := s.mal.huQuarantineAllocs.tail } }
  let s := huMprotect c ans info.sysPtr info.sysSize .readWrite s
  let s := { s with mal := { s.mal with
    huQuarantineSize := Words.sub 64 s.mal.huQuarantineSize info.sysSize } }
  let s := s.libcFree info.sysPtr
  { s with log := huLogRemoveFreedAllocation lc info.userPtr s.log }

/-- The eviction loop, by recursion on the queue it empties. -/
def evictLoop (c : MallocConfig) (lc : LogConfig) (ans : SysAns) :
    List HuAllocInfo → HuState → HuState
  | [], s => s
  | info :: rest, s =>
      if s.mal.huQuarantineSize > c.huQuarantineMaxSize then
        evictLoop c lc ans rest (evictFront c lc ans info s)
      else s

/-- The quarantine branch of `hu_free`. -/
def quarantine (c : MallocConfig) (lc : LogConfig) (ans : SysAns) (info : HuAllocInfo)
    (s : HuState) : HuState :=
  let s := huMprotect c ans info.sysPtr info.sysSize .none s
  let s := { s with mal := { s.mal with
    huQuarantineAllocs := s.mal.huQuarantineAllocs ++ [info]
    huQuarantineSize := Words.add 64 s.mal.huQuarantineSize info.sysSize } }
  evictLoop c lc ans s.mal.huQuarantineAllocs s

/-- `hu_free` -/
def huFree (c : MallocConfig) (lc : LogConfig) (ans : SysAns) (userPtr : Nat)
    (s : HuState) : HuState :=
  if !s.mal.huMallocInited then s.libcFree userPtr
  else if userPtr = 0 then s
  else if userPtr ∉ s.mal.huUserAddrs then s.libcFree userPtr
  else
    match huGetAllocinfo userPtr s.mal with
    -- double free, left to log_event
    | none => s
    | some info =>
      let s := { s with mal := { s.mal with
        huActiveAllocs := s.mal.huActiveAllocs.erase userPtr } }
      if c.huUseafterfree then quarantine c lc ans info s
      else (huMprotect c ans info.sysPtr info.sysSize .readWrite s).libcFree info.sysPtr

/-! ## `hu_calloc`, `hu_realloc`, `hu_malloc_size` -/

/-- `hu_calloc` -/
def huCalloc (c : MallocConfig) (ans : SysAns) (count size : Nat) (s : HuState) :
    HuState × Nat :=
  if !s.mal.huMallocInited then s.libcCalloc ans count size
  else if count = 0 ∨ size = 0 then s.libcCalloc ans count size
  else
    let total := Words.mul 64 count size
    if total / count ≠ size then (s, 0)
    else
      let r := huMalloc c ans total s
      if r.2 ≠ 0 then ({ r.1 with sys := r.1.sys.memset r.2 0 total }, r.2) else r

/-- `hu_realloc` -/
def huRealloc (c : MallocConfig) (lc : LogConfig) (ans : SysAns) (userPtr : Nat)
    (userSize : Nat) (s : HuState) : HuState × Nat :=
  if !s.mal.huMallocInited then s.libcRealloc ans userPtr userSize
  else if userPtr = 0 then huMalloc c ans userSize s
  else if userSize = 0 then (huFree c lc ans userPtr s, 0)
  else
    match huGetAllocinfo userPtr s.mal with
    | some info =>
      let r := huMalloc c ans userSize s
      let s :=
        if r.2 ≠ 0 then
          { r.1 with sys := r.1.sys.memcpy r.2 info.userPtr (min userSize info.userSize) }
        else r.1
      (huFree c lc ans userPtr s, r.2)
    | none => s.libcRealloc ans userPtr userSize

/-- `hu_quarantine_was_evicted` -/
def huQuarantineWasEvicted (m : MallocState) : Bool := m.huQuarantineEvicted

end Heapusage
