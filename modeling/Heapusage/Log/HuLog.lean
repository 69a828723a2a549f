/-
Heapusage.Log.HuLog — `hulog.cpp`: the tables of tracked and freed blocks,
the counters, `log_event`, the search of the fault handler and the summary.

Counters are `UInt64` (`unsigned long long`), sizes and addresses are
naturals. The two `unordered_map`s are tables; their iteration order, where
the source depends on it, is an argument. Every function that calls
`backtrace` takes the captured callstack as an argument instead, innermost
frame first. What `dladdr` answers is the field `objfile` of the
configuration, and `logWritable` says whether `fopen` of the log file works.

The log file is the list of entries written so far, newest first. An entry
keeps the data the printed lines are made of; symbol lookup is left out.
-/
import Heapusage.Lib.Tables
import Heapusage.System.SysHeap
import Mathlib.Data.Finset.Card

namespace Heapusage

open Tables

/-- Return addresses, innermost frame first; at most `MAX_CALL_STACK` of them. -/
abbrev Callstack := List Nat

/-- `hu_allocinfo_t`. The free callstack is meaningful in `freed_allocations`. -/
structure HuAllocinfoT where
  ptr : Nat
  size : Nat
  callstack : Callstack
  freeCallstack : Callstack
  count : Nat
  deriving DecidableEq, Repr

/-- The file-global configuration `log_init` sets. -/
structure LogConfig where
  huLogFree : Bool
  huLogMinleak : Nat
  huUseafterfree : Bool
  huLeak : Bool
  huLogRepeat : Bool
  huPageSize : Nat
  logWritable : Bool
  objfile : Nat → String

/-- What the fault handler prints about the block an address belongs to. -/
inductive Attribution where
  /-- `Address %p is %ld bytes after a block of size %ld alloc'd at:` -/
  | afterAlloc (offset : Nat) (block : HuAllocinfoT)
  /-- `Address %p is %ld bytes after a block of size %ld free'd at:` -/
  | afterFree (offset : Nat) (block : HuAllocinfoT)
  /-- `Address %p is %ld bytes inside a block of size %ld free'd at:` -/
  | insideFree (offset : Nat) (block : HuAllocinfoT)
  deriving DecidableEq, Repr

/-- The figures of one `log_summary`. -/
structure Summary where
  ondemand : Bool
  /-- unique and total invalid deallocations, unique and total invalid accesses -/
  errors : Option (Nat × UInt64 × Nat × UInt64)
  inUseBytes : UInt64
  inUseBlocks : UInt64
  totalAllocs : UInt64
  totalFrees : UInt64
  totalAllocBytes : UInt64
  peakAllocBytes : UInt64
  lost : List HuAllocinfoT
  quarantineWarning : Bool

/-- An entry of the log file. -/
inductive LogEntry where
  | invalidDeallocation (callstack : Callstack) (ptr : Nat) (block : HuAllocinfoT)
  | invalidAccess (callstack : Callstack) (ptr : Nat) (found : Option Attribution)
  | summary (s : Summary)

/-- The file-global state of `hulog.cpp`. `uncaught` is set when building a
callstack key has thrown: the call never returns. -/
structure LogState where
  loggingEnabled : Bool
  allocinfoTotalFrees : UInt64
  allocinfoTotalAllocs : UInt64
  allocinfoTotalAllocBytes : UInt64
  allocinfoCurrentAllocBytes : UInt64
  allocinfoPeakAllocBytes : UInt64
  allocations : Table Nat HuAllocinfoT
  freedAllocations : Table Nat HuAllocinfoT
  reportedInvalidDeallocCallstacks : Finset Callstack
  reportedInvalidAccessCallstacks : Finset Callstack
  totalInvalidDeallocCount : UInt64
  totalInvalidAccessCount : UInt64
  logFile : List LogEntry
  uncaught : Bool

/-- `EVENT_MALLOC` and `EVENT_FREE`. -/
inductive Event where
  | malloc
  | free
  deriving DecidableEq, Repr

/-- The state `log_init` leaves: empty tables, logging still off. -/
def logInit : LogState where
  loggingEnabled := false
  allocinfoTotalFrees := 0
  allocinfoTotalAllocs := 0
  allocinfoTotalAllocBytes := 0
  allocinfoCurrentAllocBytes := 0
  allocinfoPeakAllocBytes := 0
  allocations := ∅
  freedAllocations := ∅
  reportedInvalidDeallocCallstacks := ∅
  reportedInvalidAccessCallstacks := ∅
  totalInvalidDeallocCount := 0
  totalInvalidAccessCount := 0
  logFile := []
  uncaught := false

/-- `log_enable` -/
def logEnable (flag : Bool) (l : LogState) : LogState := { l with loggingEnabled := flag }

/-! ## Callstacks -/

/-- The loop of `log_is_valid_callstack`: the first known object file, from
the outermost frame in. -/
def originatingObjfile (objfile : Nat → String) : List Nat → String
  | [] => ""
  | addr :: inner =>
      if objfile addr ≠ "" then objfile addr else originatingObjfile objfile inner

/-- `log_is_valid_callstack`. Frame 0 is never looked at. -/
def logIsValidCallstack (c : LogConfig) (callstack : Callstack) (isAlloc : Bool) : Bool :=
  let objfile := originatingObjfile c.objfile callstack.tail.reverse
  if objfile ≠ "" ∧ !isAlloc ∧ objfile = "libobjc.A.dylib" then false else true

/-! ## Events -/

/-- The `EVENT_MALLOC` branch of `log_event`. -/
def logMalloc (c : LogConfig) (ptr : Nat) (size : Nat) (callstack : Callstack)
    (l : LogState) : LogState :=
  let l :=
    if c.huUseafterfree || c.huLogFree then
      { l with freedAllocations := l.freedAllocations.erase ptr }
    else l
  if c.huLogMinleak ≤ size then
    let current := l.allocinfoCurrentAllocBytes + UInt64.ofNat size
    { l with
      allocations := l.allocations.insert ptr
        { ptr := ptr, size := size, callstack := callstack, freeCallstack := [], count := 1 }
      allocinfoTotalAllocs := l.allocinfoTotalAllocs + 1
      allocinfoTotalAllocBytes := l.allocinfoTotalAllocBytes + UInt64.ofNat size
      allocinfoCurrentAllocBytes := current
      allocinfoPeakAllocBytes :=
        if current > l.allocinfoPeakAllocBytes then current else l.allocinfoPeakAllocBytes }
  else l

/-- The report of an invalid deallocation: `is_new || hu_log_repeat`, and the
log file opens. -/
def reportInvalidDealloc (c : LogConfig) (ptr : Nat) (block : HuAllocinfoT)
    (callstack : Callstack) (l : LogState) : LogState :=
  let isNew := callstack.tail ∉ l.reportedInvalidDeallocCallstacks
  { l with
    reportedInvalidDeallocCallstacks :=
      insert callstack.tail l.reportedInvalidDeallocCallstacks
    logFile :=
      if (isNew ∨ c.huLogRepeat) ∧ c.logWritable then
        .invalidDeallocation callstack ptr block :: l.logFile
      else l.logFile }

/-- The `Invalid deallocation` branch of `log_event`. With an empty backtrace
the key's range `callstack + 1 .. callstack + 0` runs backwards and the vector
constructor throws. -/
def invalidDealloc (c : LogConfig) (ptr : Nat) (block : HuAllocinfoT) (callstack : Callstack)
    (l : LogState) : LogState :=
  let l :=
    if logIsValidCallstack c callstack false then
      let l := { l with totalInvalidDeallocCount := l.totalInvalidDeallocCount + 1 }
      if callstack = [] then { l with uncaught := true }
      else reportInvalidDealloc c ptr block callstack l
    else l
  if l.uncaught then l
  else { l with freedAllocations := l.freedAllocations.erase ptr }

/-- The `EVENT_FREE` branch of `log_event`. -/
def logFree (c : LogConfig) (ptr : Nat) (callstack : Callstack) (l : LogState) : LogState :=
  let l :=
    match l.allocations.lookup ptr with
    | some info =>
        let info := { info with
          freeCallstack :=
            if c.huUseafterfree || c.huLogFree then callstack else info.freeCallstack }
        { l with
          allocinfoCurrentAllocBytes := l.allocinfoCurrentAllocBytes - UInt64.ofNat info.size
          freedAllocations :=
            if c.huUseafterfree || c.huLogFree then insertNew ptr info l.freedAllocations
            else l.freedAllocations
          allocations := l.allocations.erase ptr }
    | none =>
        if c.huLogFree then
          match l.freedAllocations.lookup ptr with
          | some block => invalidDealloc c ptr block callstack l
          | none => l
        else l
  if l.uncaught then l
  else { l with allocinfoTotalFrees := l.allocinfoTotalFrees + 1 }

/-- `log_event` -/
def logEvent (c : LogConfig) (event : Event) (ptr : Nat) (size : Nat) (callstack : Callstack)
    (l : LogState) : LogState :=
  if l.loggingEnabled then
    match event with
    | .malloc => logMalloc c ptr size callstack l
    | .free => logFree c ptr callstack l
  else l

/-- `hu_log_remove_freed_allocation` -/
def huLogRemoveFreedAllocation (c : LogConfig) (ptr : Nat) (l : LogState) : LogState :=
  if c.huLogFree then l else { l with freedAllocations := l.freedAllocations.erase ptr }

/-! ## The fault handler -/

/-- `(char*)allocation->second.ptr + allocation->second.size` -/
def HuAllocinfoT.stop (a : HuAllocinfoT) : Nat := Words.add 64 a.ptr a.size

/-- From the end of the block to a page later, both ends included. -/
def afterBlock (pageSize : Nat) (a : HuAllocinfoT) (x : Nat) : Bool :=
  a.stop ≤ x && x ≤ Words.add 64 a.stop pageSize

/-- From the start of the block to a page after its end, both ends included. -/
def insideBlock (pageSize : Nat) (a : HuAllocinfoT) (x : Nat) : Bool :=
  a.ptr ≤ x && x ≤ Words.add 64 a.stop pageSize

/-- The loop over `allocations`, in iteration order. -/
def searchActive (pageSize : Nat) (x : Nat) : List HuAllocinfoT → Option Attribution
  | [] => none
  | a :: rest =>
      if afterBlock pageSize a x then some (.afterAlloc (Words.sub 64 x a.stop) a)
      else searchActive pageSize x rest

/-- The loop over `freed_allocations`, in iteration order. -/
def searchFreed (pageSize : Nat) (x : Nat) : List HuAllocinfoT → Option Attribution
  | [] => none
  | a :: rest =>
      if afterBlock pageSize a x then some (.afterFree (Words.sub 64 x a.stop) a)
      else if insideBlock pageSize a x then some (.insideFree (Words.sub 64 x a.ptr) a)
      else searchFreed pageSize x rest

/-- The search of `hu_sig_handler`: active blocks first, then freed ones. -/
def sigSearch (pageSize : Nat) (x : Nat) (active freed : List HuAllocinfoT) :
    Option Attribution :=
  match searchActive pageSize x active with
  | some found => some found
  | none => searchFreed pageSize x freed

/-- The logging of `hu_sig_handler` for a fault at `x`; the caller sets and
clears the bypass flag and exits. -/
def huSigHandler (c : LogConfig) (x : Nat) (callstack : Callstack)
    (active freed : List HuAllocinfoT) (l : LogState) : LogState :=
  if logIsValidCallstack c callstack false then
    let l := { l with totalInvalidAccessCount := l.totalInvalidAccessCount + 1 }
    if callstack = [] then { l with uncaught := true }
    else
      let isNew := callstack.tail ∉ l.reportedInvalidAccessCallstacks
      { l with
        reportedInvalidAccessCallstacks :=
          insert callstack.tail l.reportedInvalidAccessCallstacks
        logFile :=
          if (isNew ∨ c.huLogRepeat) ∧ c.logWritable then
            .invalidAccess callstack x (sigSearch c.huPageSize x active freed) :: l.logFile
          else l.logFile }
  else l

/-! ## The summary -/

/-- One step of the grouping loop: the map is ordered by callstack. -/
def groupInsert (it : HuAllocinfoT) :
    List (Callstack × HuAllocinfoT) → List (Callstack × HuAllocinfoT)
  | [] => [(it.callstack, it)]
  | (k, g) :: rest =>
      if it.callstack = k then
        (k, { g with count := g.count + 1, size := Words.add 64 g.size it.size }) :: rest
      else if it.callstack < k then (it.callstack, it) :: (k, g) :: rest
      else (k, g) :: groupInsert it rest

/-- `allocations_by_callstack` -/
def allocationsByCallstack (order : List HuAllocinfoT) : List (Callstack × HuAllocinfoT) :=
  order.foldl (fun groups it => groupInsert it groups) []

/-- `multiset::insert` under `size_compare`: after the elements of equal size. -/
def sizeInsert (it : HuAllocinfoT) : List HuAllocinfoT → List HuAllocinfoT
  | [] => [it]
  | g :: rest => if it.size < g.size then it :: g :: rest else g :: sizeInsert it rest

/-- `allocations_by_size` -/
def allocationsBySize (groups : List (Callstack × HuAllocinfoT)) : List HuAllocinfoT :=
  groups.foldl (fun sorted g => sizeInsert g.2 sorted) []

/-- The reverse printing loop with its early exit. -/
def lostEntries (c : LogConfig) (order : List HuAllocinfoT) : List HuAllocinfoT :=
  ((allocationsBySize (allocationsByCallstack order)).reverse.takeWhile
    (fun it => c.huLogMinleak ≤ it.size)).filter
    (fun it => logIsValidCallstack c it.callstack true)

/-- The figures `log_summary` prints, for one iteration order of `allocations`. -/
def summaryOf (c : LogConfig) (ondemand evicted : Bool) (order : List HuAllocinfoT)
    (l : LogState) : Summary where
  ondemand := ondemand
  errors :=
    if l.totalInvalidDeallocCount > 0 ∨ l.totalInvalidAccessCount > 0 then
      some (l.reportedInvalidDeallocCallstacks.card, l.totalInvalidDeallocCount,
        l.reportedInvalidAccessCallstacks.card, l.totalInvalidAccessCount)
    else none
  inUseBytes := order.foldl (fun total it => total + UInt64.ofNat it.size) 0
  inUseBlocks := UInt64.ofNat order.length
  totalAllocs := l.allocinfoTotalAllocs
  totalFrees := l.allocinfoTotalFrees
  totalAllocBytes := l.allocinfoTotalAllocBytes
  peakAllocBytes := l.allocinfoPeakAllocBytes
  lost := if c.huLeak then lostEntries c order else []
  quarantineWarning := c.huUseafterfree && evicted

/-- `log_summary`; `evicted` is what `hu_quarantine_was_evicted` answers. -/
def logSummary (c : LogConfig) (ondemand evicted : Bool) (order : List HuAllocinfoT)
    (l : LogState) : LogState :=
  if c.logWritable then
    { l with logFile := .summary (summaryOf c ondemand evicted order l) :: l.logFile }
  else l

end Heapusage
