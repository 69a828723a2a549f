/-
Heapusage.Log.LogFile — `hulog.cpp` with its log file and its two caches.

`Log.HuLog` keeps the log as a list of entries and takes the object file of an
address from a function. Here `log_init`, `log_print_callstack`,
`log_is_valid_callstack`, `log_event`, `hu_sig_handler`, `log_summary` and
`addr_to_symbol` are written out once more with what the code does instead:
every `fprintf` appends characters to the file, and what `dladdr` answered is
looked up in `symbol_cache` and `objfile_cache` first. The two caches differ:
an empty symbol is remembered, a failed look-up of an object file is not.

`dladdr`, `__cxa_demangle` and `backward::TraceResolver` may answer
differently from one call to the next; what they answer during a call of the
module is an argument, the `Loader`.
-/
import Heapusage.Lib.Memos
import Heapusage.Log.LogText

namespace Heapusage

open Formats Memos Tables

/-! ## The libraries -/

/-- What `dladdr` says about an address. -/
structure DlInfo where
  dliFname : Option String
  dliSname : Option String
  dliSaddr : Nat

/-- `backward::ResolvedTrace`, as far as it is read. -/
structure ResolvedTrace where
  objectFunction : String
  sourceFilename : String
  sourceLine : Nat

/-- The answers of the libraries during a call. -/
structure Loader where
  dladdr : Nat → Option DlInfo
  /-- the result of `__cxa_demangle`, and the status it sets -/
  cxaDemangle : String → Option String × Int
  /-- in a build with one of the debug information libraries -/
  traceResolver : Option (Nat → ResolvedTrace)

/-- `basename`: the part after the last slash, less slashes at the end. -/
def basename (path : String) : String :=
  if path = "" then "."
  else
    match path.toList.reverse.dropWhile (· == '/') with
    | [] => "/"
    | trimmed => String.ofList (trimmed.takeWhile (· != '/')).reverse

/-- `path.substr(path.find_last_of("/\\") + 1)` -/
def afterSeparator (path : String) : String :=
  String.ofList (path.toList.reverse.takeWhile fun c => c != '/' && c != '\\').reverse

namespace Loader

/-- The object file `log_is_valid_callstack` finds. -/
def objfile (ld : Loader) (addr : Nat) : Option String :=
  match ld.dladdr addr with
  | some dlinfo => dlinfo.dliFname.map basename
  | none => none

/-- The demangled name of a symbol that starts with `_`; empty if there is none. -/
def demangled (ld : Loader) (sname : String) : String :=
  if sname.toList.head? = some '_' then
    match ld.cxaDemangle sname with
    | (some name, status) => if status = 0 then name else ""
    | (none, _) => ""
  else ""

/-- The symbol `addr_to_symbol` makes up when it is not in the cache. -/
def symbol (ld : Loader) (addr : Nat) : String :=
  match ld.traceResolver with
  | some resolve =>
      let rtrace := resolve addr
      if rtrace.sourceFilename ≠ "" then
        rtrace.objectFunction ++ " (" ++ afterSeparator rtrace.sourceFilename ++ ":" ++
          toString rtrace.sourceLine ++ ")"
      else rtrace.objectFunction
  | none =>
      match ld.dladdr addr with
      | some ⟨_, some sname, saddr⟩ =>
          let symbol := ld.demangled sname
          let symbol := if symbol = "" then sname else symbol
          if symbol ≠ "" then symbol ++ " + " ++ toString (Int.bmod (addr - saddr) (2 ^ 64))
          else symbol
      | _ => ""

end Loader

/-! ## The module -/

/-- What `log_init` sets up for the log file. -/
structure FileConfig where
  huPrefix : List Char
  huLogNosyms : Bool
  header : List Char

/-- The state of `hulog.cpp`, with the characters of the log file; the list of
entries in `tables` stays empty. -/
structure LogModule where
  tables : LogState
  symbolCache : Table Nat String
  objfileCache : Table Nat String
  file : List Char

/-- The file configuration `log_init` makes; the log starts with a header. -/
def FileConfig.make (logPidPrefix nosyms : Bool) (pid : Nat) (huVersion command : Option String) :
    FileConfig :=
  let huPrefix :=
    if logPidPrefix then printf (formatOf "==%d== " rfl) [.int pid] else []
  let version := huVersion.getD ""
  { huPrefix := huPrefix
    huLogNosyms := nosyms
    header :=
      (if version ≠ "" then
        printf (formatOf "%sHeapusage v%s - https://github.com/d99kris/heapusage\n" rfl)
          [.text huPrefix, .text version.toList]
      else
        printf (formatOf "%sHeapusage - https://github.com/d99kris/heapusage\n" rfl)
          [.text huPrefix]) ++
      printf (formatOf "%sCommand: %s\n" rfl)
        [.text huPrefix, .text (command.getD "").toList] ++
      printf (formatOf "%sProcess: %d\n" rfl) [.text huPrefix, .int pid] ++
      printf (formatOf "%s\n" rfl) [.text huPrefix] }

namespace LogModule

/-- `log_init` -/
def logInit (c : LogConfig) (t : FileConfig) : LogModule where
  tables := Heapusage.logInit
  symbolCache := ∅
  objfileCache := ∅
  file := if c.logWritable then t.header else []

/-- A change of the tables and counters. -/
def onTables (f : LogState → LogState) (m : LogModule) : LogModule :=
  { m with tables := f m.tables }

/-! ### Printing -/

/-- `fprintf` to the log file, which is open for appending. -/
def fprintf (f : Format) (args : List Arg) (m : LogModule) : LogModule :=
  { m with file := m.file ++ printf f args }

/-- `fprintf` of a whole line: `%s` and the format of its kind. -/
def put (t : FileConfig) (kind : LineKind) (args : List Arg) (m : LogModule) : LogModule :=
  m.fprintf (.conv .str :: logTable t.huLogNosyms kind) (.text t.huPrefix :: args)

/-- `addr_to_symbol` -/
def addrToSymbol (ld : Loader) (addr : Nat) (m : LogModule) : LogModule × String :=
  let r := ask (fun addr => some (ld.symbol addr)) addr m.symbolCache
  ({ m with symbolCache := r.1 }, r.2.getD "")

/-- One turn of the loop of `log_print_callstack`. -/
def printFrame (t : FileConfig) (ld : Loader) (addr : Nat) (m : LogModule) : LogModule :=
  let m := m.fprintf (formatOf "%s   at 0x%016lx" rfl) [.text t.huPrefix, .addr addr]
  if t.huLogNosyms then m.fprintf endOfLine []
  else
    let r := m.addrToSymbol ld addr
    r.1.fprintf (formatOf ": %s\n" rfl) [.text (if r.2 = "" then "???" else r.2).toList]

/-- The loop, which starts at `i = 1`. -/
def printFrames (t : FileConfig) (ld : Loader) : List Nat → LogModule → LogModule
  | [], m => m
  | addr :: rest, m => printFrames t ld rest (m.printFrame t ld addr)

/-- `log_print_callstack` -/
def logPrintCallstack (t : FileConfig) (ld : Loader) (callstack : Callstack) (m : LogModule) :
    LogModule :=
  if callstack.length > 0 then m.printFrames t ld callstack.tail
  else m.put t .emptyCallstack []

/-! ### Callstacks -/

/-- The loop of `log_is_valid_callstack`. A failed look-up leaves `objfile` as
it is, which is empty as long as the loop goes on. -/
def originatingObjfile (ld : Loader) : List Nat → LogModule → LogModule × String
  | [], m => (m, "")
  | addr :: inner, m =>
      let r := ask ld.objfile addr m.objfileCache
      let m := { m with objfileCache := r.1 }
      if r.2.getD "" ≠ "" then (m, r.2.getD "") else originatingObjfile ld inner m

/-- `log_is_valid_callstack` -/
def logIsValidCallstack (ld : Loader) (callstack : Callstack) (isAlloc : Bool) (m : LogModule) :
    LogModule × Bool :=
  let r := m.originatingObjfile ld callstack.tail.reverse
  (r.1, if r.2 ≠ "" ∧ !isAlloc ∧ r.2 = "libobjc.A.dylib" then false else true)

/-! ### Events -/

/-- The text of an invalid deallocation. -/
def printInvalidDealloc (t : FileConfig) (ld : Loader) (ptr : Nat) (block : HuAllocinfoT)
    (callstack : Callstack) (m : LogModule) : LogModule :=
  let m := m.put t .invalidDeallocation []
  let m := m.logPrintCallstack t ld callstack
  let m := m.put t .freedBlock [.addr ptr, .int (asLong block.size)]
  let m := m.logPrintCallstack t ld block.freeCallstack
  let m := m.put t .blockAllocd []
  let m := m.logPrintCallstack t ld block.callstack
  m.put t .blank []

/-- The `Invalid deallocation` branch of `log_event`. -/
def invalidDealloc (c : LogConfig) (t : FileConfig) (ld : Loader) (ptr : Nat)
    (block : HuAllocinfoT) (callstack : Callstack) (m : LogModule) : LogModule :=
  let r := m.logIsValidCallstack ld callstack false
  let m :=
    if r.2 then
      let m := r.1.onTables fun l =>
        { l with totalInvalidDeallocCount := l.totalInvalidDeallocCount + 1 }
      if callstack = [] then m.onTables fun l => { l with uncaught := true }
      else
        let isNew := callstack.tail ∉ m.tables.reportedInvalidDeallocCallstacks
        let m := m.onTables fun l =>
          { l with
            reportedInvalidDeallocCallstacks :=
              insert callstack.tail l.reportedInvalidDeallocCallstacks }
        if (isNew ∨ c.huLogRepeat) ∧ c.logWritable then
          m.printInvalidDealloc t ld ptr block callstack
        else m
    else r.1
  if m.tables.uncaught then m
  else m.onTables fun l => { l with freedAllocations := l.freedAllocations.erase ptr }

/-- The `EVENT_FREE` branch of `log_event`. -/
def logFree (c : LogConfig) (t : FileConfig) (ld : Loader) (ptr : Nat) (callstack : Callstack)
    (m : LogModule) : LogModule :=
  let m :=
    match m.tables.allocations.lookup ptr with
    | some info =>
        let info := { info with
          freeCallstack :=
            if c.huUseafterfree || c.huLogFree then callstack else info.freeCallstack }
        m.onTables fun l =>
          { l with
            allocinfoCurrentAllocBytes :=
              l.allocinfoCurrentAllocBytes - UInt64.ofNat info.size
            freedAllocations :=
              if c.huUseafterfree || c.huLogFree then insertNew ptr info l.freedAllocations
              else l.freedAllocations
            allocations := l.allocations.erase ptr }
    | none =>
        if c.huLogFree then
          match m.tables.freedAllocations.lookup ptr with
          | some block => m.invalidDealloc c t ld ptr block callstack
          | none => m
        else m
  if m.tables.uncaught then m
  else m.onTables fun l => { l with allocinfoTotalFrees := l.allocinfoTotalFrees + 1 }

/-- `log_event` -/
def logEvent (c : LogConfig) (t : FileConfig) (ld : Loader) (event : Event) (ptr size : Nat)
    (callstack : Callstack) (m : LogModule) : LogModule :=
  if m.tables.loggingEnabled then
    match event with
    -- no line of the `EVENT_MALLOC` branch is about the file or a cache
    | .malloc => m.onTables (logMalloc c ptr size callstack)
    | .free => m.logFree c t ld ptr callstack
  else m

/-! ### The fault handler -/

/-- The text about the block an address belongs to. -/
def printAttribution (t : FileConfig) (ld : Loader) (x : Nat) :
    Attribution → LogModule → LogModule
  | .afterAlloc offset a => fun m =>
      let m := m.put t .afterAlloc [.addr x, .int (asLong offset), .int (asLong a.size)]
      m.logPrintCallstack t ld a.callstack
  | .afterFree offset a => fun m =>
      let m := m.put t .afterFree [.addr x, .int (asLong offset), .int (asLong a.size)]
      let m := m.logPrintCallstack t ld a.freeCallstack
      let m := m.put t .blockAllocd []
      m.logPrintCallstack t ld a.callstack
  | .insideFree offset a => fun m =>
      let m := m.put t .insideFree [.addr x, .int (asLong offset), .int (asLong a.size)]
      let m := m.logPrintCallstack t ld a.freeCallstack
      let m := m.put t .blockAllocd []
      m.logPrintCallstack t ld a.callstack

/-- The text of an invalid access. -/
def printInvalidAccess (t : FileConfig) (ld : Loader) (x : Nat) (found : Option Attribution)
    (callstack : Callstack) (m : LogModule) : LogModule :=
  let m := m.put t .invalidAccess []
  let m := m.logPrintCallstack t ld callstack
  let m :=
    match found with
    | some a => m.printAttribution t ld x a
    | none => m
  m.put t .blank []

/-- The logging of `hu_sig_handler`. -/
def huSigHandler (c : LogConfig) (t : FileConfig) (ld : Loader) (x : Nat) (callstack : Callstack)
    (active freed : List HuAllocinfoT) (m : LogModule) : LogModule :=
  let r := m.logIsValidCallstack ld callstack false
  if r.2 then
    let m := r.1.onTables fun l =>
      { l with totalInvalidAccessCount := l.totalInvalidAccessCount + 1 }
    if callstack = [] then m.onTables fun l => { l with uncaught := true }
    else
      let isNew := callstack.tail ∉ m.tables.reportedInvalidAccessCallstacks
      let m := m.onTables fun l =>
        { l with
          reportedInvalidAccessCallstacks :=
            insert callstack.tail l.reportedInvalidAccessCallstacks }
      if (isNew ∨ c.huLogRepeat) ∧ c.logWritable then
        m.printInvalidAccess t ld x (sigSearch c.huPageSize x active freed) callstack
      else m
  else r.1

/-! ### The summary -/

/-- The printing loop over the lost blocks, in the order it takes them. -/
def printLost (t : FileConfig) (ld : Loader) : List HuAllocinfoT → LogModule → LogModule
  | [], m => m
  | it :: rest, m =>
      let r := m.logIsValidCallstack ld it.callstack true
      let m :=
        if r.2 then
          let m := r.1.put t .lost [.int it.size, .int it.count]
          let m := m.logPrintCallstack t ld it.callstack
          m.put t .blank []
        else r.1
      printLost t ld rest m

/-- `log_summary` -/
def logSummary (c : LogConfig) (t : FileConfig) (ld : Loader) (ondemand evicted : Bool)
    (order : List HuAllocinfoT) (m : LogModule) : LogModule :=
  if c.logWritable then
    let l := m.tables
    let leakTotalBytes := order.foldl (fun total it => total + UInt64.ofNat it.size) 0
    let leakTotalBlocks := UInt64.ofNat order.length
    let bySize := allocationsBySize (allocationsByCallstack order)
    let m := if ondemand then m.put t .onDemand [] else m
    let m :=
      if l.totalInvalidDeallocCount > 0 ∨ l.totalInvalidAccessCount > 0 then
        let m := m.put t .errorSummary []
        let m := m.put t .deallocations
          [.int l.reportedInvalidDeallocCallstacks.card, counter l.totalInvalidDeallocCount]
        let m := m.put t .memoryAccess
          [.int l.reportedInvalidAccessCallstacks.card, counter l.totalInvalidAccessCount]
        m.put t .blank []
      else m
    let m := m.put t .heapSummary []
    let m := m.put t .inUse [counter leakTotalBytes, counter leakTotalBlocks]
    let m := m.put t .totalUsage [counter l.allocinfoTotalAllocs, counter l.allocinfoTotalFrees,
      counter l.allocinfoTotalAllocBytes]
    let m := m.put t .peakUsage [counter l.allocinfoPeakAllocBytes]
    let m := m.put t .blank []
    let m :=
      if c.huLeak then
        m.printLost t ld (bySize.reverse.takeWhile fun it => c.huLogMinleak ≤ it.size)
      else m
    let m := m.put t .leakSummary []
    let m := m.put t .definitelyLost [counter leakTotalBytes, counter leakTotalBlocks]
    let m := m.put t .blank []
    if c.huUseafterfree && evicted then (m.put t .warning []).put t .blank [] else m
  else m

end LogModule

/-! ## Runs -/

/-- A call of the module. -/
inductive FileOp where
  | event (event : Event) (ptr size : Nat) (callstack : Callstack)
  | fault (x : Nat) (callstack : Callstack) (active freed : List HuAllocinfoT)
  | summary (ondemand evicted : Bool) (order : List HuAllocinfoT)
  | enable (flag : Bool)
  | removeFreed (ptr : Nat)

/-- A call, and what the libraries answer during it. -/
structure FileInput where
  op : FileOp
  loader : Loader

/-- The call on the tables and the list of entries. -/
def LogState.next (c : LogConfig) (l : LogState) (i : FileInput) : LogState :=
  match i.op with
  | .event event ptr size callstack => logEvent c event ptr size callstack l
  | .fault x callstack active freed => huSigHandler c x callstack active freed l
  | .summary ondemand evicted order => logSummary c ondemand evicted order l
  | .enable flag => logEnable flag l
  | .removeFreed ptr => huLogRemoveFreedAllocation c ptr l

/-- The call on the module with its file. -/
def LogModule.next (c : LogConfig) (t : FileConfig) (m : LogModule) (i : FileInput) : LogModule :=
  match i.op with
  | .event event ptr size callstack => m.logEvent c t i.loader event ptr size callstack
  | .fault x callstack active freed => m.huSigHandler c t i.loader x callstack active freed
  | .summary ondemand evicted order => m.logSummary c t i.loader ondemand evicted order
  | .enable flag => m.onTables (logEnable flag)
  | .removeFreed ptr => m.onTables (huLogRemoveFreedAllocation c ptr)

end Heapusage
