/-
Heapusage.Log.LogFileTheorems — the log file and the caches against the list
of entries.

§1 What a call prints (`Prints`): the lines it appends, for every table of
   symbols that agrees with the cache after it. A symbol in the cache stays
   there, so what is printed of an address later agrees too.
§2 Every printing function appends the lines of its report.
§3 The cache of object files answers like `dladdr`.
§4 Every call of the module does to the tables what it does without file and
   caches, and appends the lines of the entries it adds (`Follows`).
§5 Runs: the file is the text of the entries, and determines them.
-/
import Heapusage.Log.LogFile
import Heapusage.Lib.Run

namespace Heapusage

open Formats Memos Tables Runs

/-! ## §1 Printing -/

/-- The table gives the symbols the cache has. -/
def AgreesWith (symbol : Nat → String) (cache : Table Nat String) : Prop :=
  ∀ addr s, cache.lookup addr = some s → symbol addr = s

theorem AgreesWith.of_extends {symbol : Nat → String} {cache cache' : Table Nat String}
    (h : AgreesWith symbol cache') (hext : Extends cache cache') : AgreesWith symbol cache :=
  fun addr s hs => h addr s (hext addr s hs)

/-- From `m` to `m'` the lines are appended, and nothing else changes but the
caches, which get answers of `ld`. -/
structure Prints (c : LogConfig) (t : FileConfig) (ld : Loader) (m m' : LogModule)
    (lines : (Nat → String) → List LogLine) : Prop where
  tables : m'.tables = m.tables
  objfiles : AgreesWith c.objfile m.objfileCache → AgreesWith c.objfile m'.objfileCache
  symbols : Extends m.symbolCache m'.symbolCache
  answers : ∀ addr s, m'.symbolCache.lookup addr = some s →
    m.symbolCache.lookup addr = some s ∨ s = ld.symbol addr
  file : ∀ symbol, AgreesWith symbol m'.symbolCache →
    m'.file = m.file ++ textOf t.huLogNosyms t.huPrefix (lines symbol)

theorem textOf_append (nosyms : Bool) (huPrefix : List Char) (ls ms : List LogLine) :
    textOf nosyms huPrefix (ls ++ ms) = textOf nosyms huPrefix ls ++ textOf nosyms huPrefix ms :=
  List.flatMap_append

namespace Prints

variable {c : LogConfig} {t : FileConfig} {ld : Loader} {m m' m'' : LogModule}
  {lines lines' : (Nat → String) → List LogLine}

theorem nothing : Prints c t ld m m (fun _ => []) where
  tables := rfl
  objfiles := id
  symbols := Extends.refl _
  answers := fun _ _ h => .inl h
  file := fun _ _ => (List.append_nil m.file).symm

theorem trans (h : Prints c t ld m m' lines) (h' : Prints c t ld m' m'' lines') :
    Prints c t ld m m'' (fun symbol => lines symbol ++ lines' symbol) where
  tables := h'.tables.trans h.tables
  objfiles := h'.objfiles ∘ h.objfiles
  symbols := h.symbols.trans h'.symbols
  answers := by
    intro addr s hs
    rcases h'.answers addr s hs with hs | hs
    · exact h.answers addr s hs
    · exact .inr hs
  file := by
    intro symbol hsymbol
    rw [h'.file symbol hsymbol, h.file symbol (hsymbol.of_extends h'.symbols), textOf_append,
      List.append_assoc]

theorem congr (h : Prints c t ld m m' lines) (hlines : lines = lines') :
    Prints c t ld m m' lines' := hlines ▸ h

end Prints

section Frame

variable (t : FileConfig) (ld : Loader) (m : LogModule)

/-- The two calls print one line. -/
theorem frame_text (symbol : Nat → String) (addr : Nat) (rest : Format) (args : List Arg)
    (htable : logTable t.huLogNosyms .frame = formatOf "   at 0x%016lx" rfl ++ rest)
    (hargs : (frameLine t.huLogNosyms symbol addr).args = .addr addr :: args) :
    printf (formatOf "%s   at 0x%016lx" rfl) [.text t.huPrefix, .addr addr] ++ printf rest args =
      textOf t.huLogNosyms t.huPrefix [frameLine t.huLogNosyms symbol addr] := by
  have hfits : Fits '\n' (formatOf "   at 0x%016lx" rfl) [.addr addr] := ⟨trivial, rfl⟩
  have hline := printf_append rest args hfits
  have hstart : printf (formatOf "%s   at 0x%016lx" rfl) [.text t.huPrefix, .addr addr] =
      t.huPrefix ++ printf (formatOf "   at 0x%016lx" rfl) [.addr addr] := rfl
  have hchars : (frameLine t.huLogNosyms symbol addr).chars (logTable t.huLogNosyms) =
      printf (logTable t.huLogNosyms .frame) (frameLine t.huLogNosyms symbol addr).args := rfl
  rw [hstart, List.append_assoc, ← hline, textOf, List.flatMap_singleton, hchars, htable, hargs]
  rfl

theorem addrToSymbol_lookup (addr : Nat) :
    (m.addrToSymbol ld addr).1.symbolCache.lookup addr = some (m.addrToSymbol ld addr).2 := by
  show (ask _ addr m.symbolCache).1.lookup addr = some ((ask _ addr m.symbolCache).2.getD "")
  rw [ask_lookup]
  unfold ask
  cases m.symbolCache.lookup addr <;> rfl

end Frame

section Printing

variable (c : LogConfig) (t : FileConfig) (ld : Loader) (m : LogModule)

/-- `fprintf` of a whole line. -/
theorem put_prints (kind : LineKind) (args : List Arg) :
    Prints c t ld m (m.put t kind args) (fun _ => [⟨kind, args⟩]) where
  tables := rfl
  objfiles := id
  symbols := Extends.refl _
  answers := fun _ _ h => .inl h
  file := fun _ _ => by simp [LogModule.put, LogModule.fprintf, printf, Conv.print, textOf,
    Line.chars]

/-- The line of a frame is printed in two calls. -/
theorem printFrame_prints (addr : Nat) :
    Prints c t ld m (m.printFrame t ld addr)
      (fun symbol => [frameLine t.huLogNosyms symbol addr]) := by
  cases hnosyms : t.huLogNosyms with
  | true =>
    have hframe : m.printFrame t ld addr =
        (m.fprintf (formatOf "%s   at 0x%016lx" rfl) [.text t.huPrefix, .addr addr]).fprintf
          endOfLine [] := by
      simp only [LogModule.printFrame, hnosyms, if_true]
    rw [hframe]
    refine ⟨rfl, id, Extends.refl _, fun _ _ h => .inl h, fun symbol _ => ?_⟩
    have htext := frame_text t symbol addr endOfLine []
      (by rw [hnosyms]; rfl) (by rw [hnosyms]; rfl)
    rw [hnosyms] at htext
    rw [hnosyms, ← htext]
    exact List.append_assoc _ _ _
  | false =>
    have hframe : m.printFrame t ld addr =
        ((m.fprintf (formatOf "%s   at 0x%016lx" rfl)
          [.text t.huPrefix, .addr addr]).addrToSymbol ld addr).1.fprintf
            (formatOf ": %s\n" rfl) [.text (if (m.addrToSymbol ld addr).2 = "" then "???"
              else (m.addrToSymbol ld addr).2).toList] := by
      simp only [LogModule.printFrame, hnosyms, Bool.false_eq_true, if_false]
      rfl
    rw [hframe]
    refine ⟨rfl, id, ask_extends, ?_, fun symbol hsymbol => ?_⟩
    · intro k s hk
      rcases ask_answered hk with hk | hk
      · exact .inl hk
      · exact .inr (Option.some.inj hk).symm
    · have hsym : symbol addr = (m.addrToSymbol ld addr).2 :=
        hsymbol addr _ (addrToSymbol_lookup ld m addr)
      have htext := frame_text t symbol addr (formatOf ": %s\n" rfl)
        [.text (if symbol addr = "" then "???" else symbol addr).toList]
        (by rw [hnosyms]; rfl) (by rw [hnosyms]; rfl)
      rw [hnosyms] at htext
      rw [hnosyms, ← htext, hsym]
      exact List.append_assoc _ _ _

/-- `log_print_callstack` -/
theorem logPrintCallstack_prints (callstack : Callstack) :
    Prints c t ld m (m.logPrintCallstack t ld callstack)
      (fun symbol => stackLines t.huLogNosyms symbol (shown callstack)) := by
  have hframes : ∀ (frames : List Nat) (m : LogModule), Prints c t ld m (m.printFrames t ld frames)
      (fun symbol => frames.map (frameLine t.huLogNosyms symbol)) := by
    intro frames
    induction frames with
    | nil => exact fun m => Prints.nothing
    | cons addr rest ih => exact fun m => (printFrame_prints c t ld m addr).trans (ih _)
  cases callstack with
  | nil => exact put_prints c t ld m .emptyCallstack []
  | cons top frames => exact hframes frames m

/-! ## §2 Reports -/

/-- The two callstacks of a freed block. -/
theorem stacks_prints (freed alloc : Callstack) :
    Prints c t ld m
      (((m.logPrintCallstack t ld freed).put t .blockAllocd []).logPrintCallstack t ld alloc)
      (fun symbol => stackLines t.huLogNosyms symbol (shown freed) ++
        ⟨.blockAllocd, []⟩ :: stackLines t.huLogNosyms symbol (shown alloc)) := by
  have hfreed := logPrintCallstack_prints c t ld m freed
  have hline := put_prints c t ld (m.logPrintCallstack t ld freed) .blockAllocd []
  have halloc := logPrintCallstack_prints c t ld
    ((m.logPrintCallstack t ld freed).put t .blockAllocd []) alloc
  exact ((hfreed.trans hline).trans halloc).congr (funext fun symbol => by simp)

theorem printInvalidDealloc_prints (ptr : Nat) (block : HuAllocinfoT) (callstack : Callstack) :
    Prints c t ld m (m.printInvalidDealloc t ld ptr block callstack)
      (fun symbol => (LogEntry.invalidDeallocation callstack ptr block).report.lines
        t.huLogNosyms symbol) := by
  have hhead := (put_prints c t ld m .invalidDeallocation []).trans
    (logPrintCallstack_prints c t ld _ callstack)
  have hblock := hhead.trans
    (put_prints c t ld _ .freedBlock [.addr ptr, .int (asLong block.size)])
  have hstacks := hblock.trans (stacks_prints c t ld _ block.freeCallstack block.callstack)
  have hall := hstacks.trans (put_prints c t ld _ .blank [])
  exact hall.congr (funext fun symbol => by simp [LogEntry.report, Report.lines])

theorem printAttribution_prints (x : Nat) (a : Attribution) :
    Prints c t ld m (m.printAttribution t ld x a)
      (fun symbol => (a.finding x).lines t.huLogNosyms symbol) := by
  cases a with
  | afterAlloc offset a =>
    exact (put_prints c t ld m .afterAlloc
      [.addr x, .int (asLong offset), .int (asLong a.size)]).trans
      (logPrintCallstack_prints c t ld _ a.callstack)
  | afterFree offset a =>
    exact (put_prints c t ld m .afterFree
      [.addr x, .int (asLong offset), .int (asLong a.size)]).trans
      (stacks_prints c t ld _ a.freeCallstack a.callstack)
  | insideFree offset a =>
    exact (put_prints c t ld m .insideFree
      [.addr x, .int (asLong offset), .int (asLong a.size)]).trans
      (stacks_prints c t ld _ a.freeCallstack a.callstack)

theorem printInvalidAccess_prints (x : Nat) (found : Option Attribution)
    (callstack : Callstack) :
    Prints c t ld m (m.printInvalidAccess t ld x found callstack)
      (fun symbol => (LogEntry.invalidAccess callstack x found).report.lines
        t.huLogNosyms symbol) := by
  have hhead := (put_prints c t ld m .invalidAccess []).trans
    (logPrintCallstack_prints c t ld _ callstack)
  cases found with
  | none =>
    exact (hhead.trans (put_prints c t ld _ .blank [])).congr
      (funext fun symbol => by simp [LogEntry.report, Report.lines])
  | some a =>
    have hfound := hhead.trans (printAttribution_prints c t ld _ x a)
    exact (hfound.trans (put_prints c t ld _ .blank [])).congr
      (funext fun symbol => by simp [LogEntry.report, Report.lines])

end Printing

/-! ## §3 Object files -/

/-- The object files `c` is about are the ones `dladdr` knows. -/
def Loader.Answers (ld : Loader) (c : LogConfig) : Prop :=
  ∀ addr, (ld.objfile addr).getD "" = c.objfile addr

section Objfiles

variable {c : LogConfig} (t : FileConfig) {ld : Loader}

/-- An address is looked up in the cache or by `dladdr`, with the same answer. -/
theorem ask_objfile (hld : ld.Answers c) {cache : Table Nat String} (h : AgreesWith c.objfile cache)
    (addr : Nat) : (ask ld.objfile addr cache).2.getD "" = c.objfile addr ∧
      AgreesWith c.objfile (ask ld.objfile addr cache).1 := by
  have hagrees : AgreesWith c.objfile (ask ld.objfile addr cache).1 := by
    intro k s hk
    rcases ask_answered hk with hk | hk
    · exact h k s hk
    · rw [← hld k, hk]
      rfl
  refine ⟨?_, hagrees⟩
  unfold ask
  cases hlookup : cache.lookup addr with
  | some s => exact (h addr s hlookup).symm
  | none =>
    have hanswer := hld addr
    cases hresolve : ld.objfile addr <;> rw [hresolve] at hanswer <;> exact hanswer

theorem originatingObjfile_cached (hld : ld.Answers c) (addrs : List Nat) : ∀ m : LogModule,
    AgreesWith c.objfile m.objfileCache →
    (m.originatingObjfile ld addrs).2 = originatingObjfile c.objfile addrs ∧
      Prints c t ld m (m.originatingObjfile ld addrs).1 (fun _ => []) := by
  induction addrs with
  | nil => exact fun m _ => ⟨rfl, Prints.nothing⟩
  | cons addr inner ih =>
    intro m hm
    obtain ⟨hanswer, hagrees⟩ := ask_objfile hld hm addr
    have hasked : Prints c t ld m
        { m with objfileCache := (ask ld.objfile addr m.objfileCache).1 } (fun _ => []) :=
      ⟨rfl, fun _ => hagrees, Extends.refl _, fun _ _ h => .inl h,
        fun _ _ => (List.append_nil m.file).symm⟩
    unfold LogModule.originatingObjfile Heapusage.originatingObjfile
    simp only [hanswer]
    split
    · exact ⟨rfl, hasked⟩
    · obtain ⟨hresult, hprints⟩ :=
        ih { m with objfileCache := (ask ld.objfile addr m.objfileCache).1 } hagrees
      exact ⟨hresult, hasked.trans hprints⟩

/-- **The cache makes no difference** to `log_is_valid_callstack`. -/
theorem logIsValidCallstack_cached (hld : ld.Answers c) (callstack : Callstack) (isAlloc : Bool)
    (m : LogModule) (hm : AgreesWith c.objfile m.objfileCache) :
    (m.logIsValidCallstack ld callstack isAlloc).2 = logIsValidCallstack c callstack isAlloc ∧
      Prints c t ld m (m.logIsValidCallstack ld callstack isAlloc).1 (fun _ => []) := by
  obtain ⟨hresult, hprints⟩ := originatingObjfile_cached t hld callstack.tail.reverse m hm
  refine ⟨?_, hprints⟩
  simp only [LogModule.logIsValidCallstack, Heapusage.logIsValidCallstack, hresult]

/-- The printing loop skips the groups that are not valid. -/
theorem printLost_prints (hld : ld.Answers c) (groups : List HuAllocinfoT) : ∀ m : LogModule,
    AgreesWith c.objfile m.objfileCache →
    Prints c t ld m (m.printLost t ld groups) (fun symbol =>
      ((groups.filter fun it => logIsValidCallstack c it.callstack true).map
        fun it => (⟨it.size, it.count, shown it.callstack⟩ : LostBlocks)).flatMap
          (LostBlocks.lines t.huLogNosyms symbol)) := by
  induction groups with
  | nil => exact fun m _ => Prints.nothing
  | cons it rest ih =>
    intro m hm
    obtain ⟨hvalid, hchecked⟩ := logIsValidCallstack_cached t hld it.callstack true m hm
    unfold LogModule.printLost
    simp only [hvalid]
    cases hit : logIsValidCallstack c it.callstack true with
    | false =>
      have hrest := ih _ (hchecked.objfiles hm)
      exact (hchecked.trans hrest).congr (funext fun symbol => by simp [hit])
    | true =>
      have hhead := (hchecked.trans (put_prints c t ld _ .lost [.int it.size, .int it.count])).trans
        (logPrintCallstack_prints c t ld _ it.callstack)
      have hgroup := hhead.trans (put_prints c t ld _ .blank [])
      have hrest := ih _ (hgroup.objfiles hm)
      exact (hgroup.trans hrest).congr
        (funext fun symbol => by simp [hit, LostBlocks.lines])

end Objfiles

/-! ## §4 A call of the module -/

theorem logText_append (nosyms : Bool) (symbol : Nat → String) (huPrefix : List Char)
    (rs rs' : List Report) : logText nosyms symbol huPrefix (rs ++ rs') =
      logText nosyms symbol huPrefix rs ++ logText nosyms symbol huPrefix rs' := by
  simp only [logText, List.flatMap_append, textOf_append]

/-- The reports of a log, in the order they were written. -/
def LogState.written (l : LogState) : List Report := l.logFile.reverse.map LogEntry.report

/-- The module with its file has the tables of `l`, and the file is the text
of the entries of `l` below the header. The symbols are answers of loaders
that were given. -/
structure Follows (c : LogConfig) (t : FileConfig) (given : Loader → Prop) (l : LogState)
    (m : LogModule) : Prop where
  tables : m.tables = { l with logFile := [] }
  objfiles : AgreesWith c.objfile m.objfileCache
  symbols : ∀ addr s, m.symbolCache.lookup addr = some s →
    ∃ ld, given ld ∧ ld.symbol addr = s
  file : ∀ symbol, AgreesWith symbol m.symbolCache →
    m.file = (if c.logWritable then t.header else []) ++
      logText t.huLogNosyms symbol t.huPrefix l.written

namespace Follows

variable {c : LogConfig} {t : FileConfig} {given : Loader → Prop} {ld : Loader}
  {l l' : LogState} {m m' : LogModule}

/-- After `log_init` the file is the header. -/
theorem logInit : Follows c t given Heapusage.logInit (LogModule.logInit c t) where
  tables := rfl
  objfiles := fun _ _ h => by cases h
  symbols := fun _ _ h => by cases h
  file := fun _ _ => (List.append_nil _).symm

theorem symbols_prints (h : Follows c t given l m) (hld : given ld)
    {lines : (Nat → String) → List LogLine} (hprints : Prints c t ld m m' lines) (addr : Nat)
    (s : String) (hs : m'.symbolCache.lookup addr = some s) :
    ∃ ld, given ld ∧ ld.symbol addr = s := by
  rcases hprints.answers addr s hs with hs | hs
  · exact h.symbols addr s hs
  · exact ⟨ld, hld, hs.symm⟩

/-- Nothing is printed, but an object file may be looked up. -/
theorem silent (h : Follows c t given l m) (hgiven : given ld)
    (hprints : Prints c t ld m m' (fun _ => [])) :
    Follows c t given l m' where
  tables := hprints.tables.trans h.tables
  objfiles := hprints.objfiles h.objfiles
  symbols := h.symbols_prints hgiven hprints
  file := by
    intro symbol hsymbol
    rw [hprints.file symbol hsymbol, h.file symbol (hsymbol.of_extends hprints.symbols)]
    exact List.append_nil _

/-- An entry is added, and its lines are printed. -/
theorem entry (h : Follows c t given l m) {e : LogEntry} (hlog : l'.logFile = e :: l.logFile)
    (htables : { l' with logFile := [] } = { l with logFile := [] }) (hgiven : given ld)
    (hprints : Prints c t ld m m' (fun symbol => e.report.lines t.huLogNosyms symbol)) :
    Follows c t given l' m' where
  tables := (hprints.tables.trans h.tables).trans htables.symm
  objfiles := hprints.objfiles h.objfiles
  symbols := h.symbols_prints hgiven hprints
  file := by
    intro symbol hsymbol
    have hreports : l'.written = l.written ++ [e.report] := by
      simp [LogState.written, hlog]
    rw [hprints.file symbol hsymbol, h.file symbol (hsymbol.of_extends hprints.symbols), hreports,
      logText_append, List.append_assoc]
    simp [logText]

end Follows

section Calls

variable {c : LogConfig} {t : FileConfig} {given : Loader → Prop} {ld : Loader} {l : LogState}
  {m : LogModule}

/-- A change of the tables that neither reads nor writes the list of entries. -/
theorem Follows.onTables (h : Follows c t given l m) {f : LogState → LogState}
    (hf : ∀ l, f { l with logFile := [] } = { f l with logFile := [] })
    (hlog : ∀ l, (f l).logFile = l.logFile) : Follows c t given (f l) (m.onTables f) := by
  have hreports : (f l).written = l.written := by rw [LogState.written, hlog, LogState.written]
  refine ⟨?_, h.objfiles, h.symbols, fun symbol hsymbol => ?_⟩
  · show f m.tables = _
    rw [h.tables, hf]
  · rw [hreports]
    exact h.file symbol hsymbol

/-- The end of a branch of `log_event`, which an uncaught exception skips. -/
theorem Follows.unlessUncaught (h : Follows c t given l m) {f : LogState → LogState}
    (hf : ∀ l, f { l with logFile := [] } = { f l with logFile := [] })
    (hlog : ∀ l, (f l).logFile = l.logFile) :
    Follows c t given (if l.uncaught then l else f l)
      (if m.tables.uncaught then m else m.onTables f) := by
  have huncaught : m.tables.uncaught = l.uncaught := by rw [h.tables]
  rw [huncaught]
  split
  · exact h
  · exact h.onTables hf hlog

/-- `invalidDealloc` without the last step. -/
theorem follows_countInvalidDealloc (h : Follows c t given l m) (hgiven : given ld) (ptr : Nat)
    (block : HuAllocinfoT) (callstack : Callstack) :
    Follows c t given (reportInvalidDealloc c ptr block callstack l)
      (if (callstack.tail ∉ m.tables.reportedInvalidDeallocCallstacks ∨ c.huLogRepeat) ∧
          c.logWritable then
        LogModule.printInvalidDealloc t ld ptr block callstack
          (m.onTables fun l =>
            { l with
              reportedInvalidDeallocCallstacks :=
                insert callstack.tail l.reportedInvalidDeallocCallstacks })
      else m.onTables fun l =>
        { l with
          reportedInvalidDeallocCallstacks :=
            insert callstack.tail l.reportedInvalidDeallocCallstacks }) := by
  have hkey := h.onTables (f := fun l =>
    { l with
      reportedInvalidDeallocCallstacks :=
        insert callstack.tail l.reportedInvalidDeallocCallstacks }) (fun _ => rfl) (fun _ => rfl)
  have hkeys : m.tables.reportedInvalidDeallocCallstacks = l.reportedInvalidDeallocCallstacks := by
    rw [h.tables]
  simp only [reportInvalidDealloc, hkeys]
  split
  · exact hkey.entry rfl rfl hgiven (printInvalidDealloc_prints c t ld _ ptr block callstack)
  · exact hkey

theorem follows_invalidDealloc (h : Follows c t given l m) (hgiven : given ld)
    (hld : ld.Answers c) (ptr : Nat)
    (block : HuAllocinfoT) (callstack : Callstack) :
    Follows c t given (invalidDealloc c ptr block callstack l)
      (m.invalidDealloc c t ld ptr block callstack) := by
  obtain ⟨hvalid, hchecked⟩ := logIsValidCallstack_cached t hld callstack false m h.objfiles
  have hlooked := h.silent hgiven hchecked
  refine Follows.unlessUncaught (f := fun l =>
    { l with freedAllocations := l.freedAllocations.erase ptr }) ?_ (fun _ => rfl) (fun _ => rfl)
  rw [hvalid]
  split
  · have hcount := hlooked.onTables (f := fun l =>
      { l with totalInvalidDeallocCount := l.totalInvalidDeallocCount + 1 })
      (fun _ => rfl) (fun _ => rfl)
    split
    · exact hcount.onTables (f := fun l => { l with uncaught := true })
        (fun _ => rfl) (fun _ => rfl)
    · exact follows_countInvalidDealloc hcount hgiven ptr block callstack
  · exact hlooked

/-- The `EVENT_FREE` branch of `log_event`. -/
theorem follows_logFree (h : Follows c t given l m) (hgiven : given ld)
    (hld : ld.Answers c) (ptr : Nat)
    (callstack : Callstack) :
    Follows c t given (logFree c ptr callstack l) (m.logFree c t ld ptr callstack) := by
  have halloc : m.tables.allocations = l.allocations := by rw [h.tables]
  have hfreed : m.tables.freedAllocations = l.freedAllocations := by rw [h.tables]
  refine Follows.unlessUncaught (f := fun l =>
    { l with allocinfoTotalFrees := l.allocinfoTotalFrees + 1 }) ?_ (fun _ => rfl) (fun _ => rfl)
  rw [halloc, hfreed]
  cases l.allocations.lookup ptr with
  | some info =>
    exact h.onTables (f := fun l =>
      { l with
        allocinfoCurrentAllocBytes := l.allocinfoCurrentAllocBytes - UInt64.ofNat info.size
        freedAllocations :=
          if c.huUseafterfree || c.huLogFree then
            insertNew ptr { info with
              freeCallstack :=
                if c.huUseafterfree || c.huLogFree then callstack else info.freeCallstack }
              l.freedAllocations
          else l.freedAllocations
        allocations := l.allocations.erase ptr }) (fun _ => rfl) (fun _ => rfl)
  | none =>
    simp only
    split
    · cases l.freedAllocations.lookup ptr with
      | some block => exact follows_invalidDealloc h hgiven hld ptr block callstack
      | none => exact h
    · exact h

/-- `log_event` -/
theorem follows_logEvent (h : Follows c t given l m) (hgiven : given ld)
    (hld : ld.Answers c) (event : Event)
    (ptr size : Nat) (callstack : Callstack) :
    Follows c t given (logEvent c event ptr size callstack l)
      (m.logEvent c t ld event ptr size callstack) := by
  have henabled : m.tables.loggingEnabled = l.loggingEnabled := by rw [h.tables]
  unfold logEvent LogModule.logEvent
  rw [henabled]
  split
  · cases event with
    | malloc =>
      refine h.onTables (f := logMalloc c ptr size callstack) ?_ ?_
      · intro l
        unfold logMalloc
        split <;> split <;> rfl
      · intro l
        unfold logMalloc
        split <;> split <;> rfl
    | free => exact follows_logFree h hgiven hld ptr callstack
  · exact h

/-- `hu_sig_handler` -/
theorem follows_huSigHandler (h : Follows c t given l m) (hgiven : given ld) (hld : ld.Answers c)
    (x : Nat)
    (callstack : Callstack) (active freed : List HuAllocinfoT) :
    Follows c t given (huSigHandler c x callstack active freed l)
      (m.huSigHandler c t ld x callstack active freed) := by
  obtain ⟨hvalid, hchecked⟩ := logIsValidCallstack_cached t hld callstack false m h.objfiles
  have hlooked := h.silent hgiven hchecked
  unfold huSigHandler LogModule.huSigHandler
  simp only [hvalid]
  split
  · have hcount := hlooked.onTables (f := fun l =>
      { l with totalInvalidAccessCount := l.totalInvalidAccessCount + 1 })
      (fun _ => rfl) (fun _ => rfl)
    split
    · exact hcount.onTables (f := fun l => { l with uncaught := true })
        (fun _ => rfl) (fun _ => rfl)
    · have hkey := hcount.onTables (f := fun l =>
        { l with
          reportedInvalidAccessCallstacks :=
            insert callstack.tail l.reportedInvalidAccessCallstacks })
        (fun _ => rfl) (fun _ => rfl)
      have hkeys : ((m.logIsValidCallstack ld callstack false).1.onTables fun l =>
          { l with totalInvalidAccessCount := l.totalInvalidAccessCount + 1
            }).tables.reportedInvalidAccessCallstacks = l.reportedInvalidAccessCallstacks := by
        rw [hcount.tables]
      simp only [hkeys]
      split
      · exact hkey.entry rfl rfl hgiven (printInvalidAccess_prints c t ld _ x _ callstack)
      · exact hkey
  · exact hlooked

/-- The part of `log_summary` after the figures of the heap. -/
theorem printLeaks_prints (hld : ld.Answers c) (evicted : Bool) (bytes blocks : UInt64)
    (order : List HuAllocinfoT) (m : LogModule) (hm : AgreesWith c.objfile m.objfileCache) :
    Prints c t ld m
      (let m := if c.huLeak then m.printLost t ld
          ((allocationsBySize (allocationsByCallstack order)).reverse.takeWhile
            fun it => c.huLogMinleak ≤ it.size)
        else m
      let m := m.put t .leakSummary []
      let m := m.put t .definitelyLost [counter bytes, counter blocks]
      let m := m.put t .blank []
      if c.huUseafterfree && evicted then (m.put t .warning []).put t .blank [] else m)
      (fun symbol => (((if c.huLeak then lostEntries c order else []).map
          fun it => (⟨it.size, it.count, shown it.callstack⟩ : LostBlocks)).flatMap
            (LostBlocks.lines t.huLogNosyms symbol) ++
        [⟨.leakSummary, []⟩, ⟨.definitelyLost, [counter bytes, counter blocks]⟩,
          ⟨.blank, []⟩]) ++
        (if c.huUseafterfree && evicted then [⟨.warning, []⟩, ⟨.blank, []⟩] else [])) := by
  have hlost : Prints c t ld m
      (if c.huLeak then m.printLost t ld
          ((allocationsBySize (allocationsByCallstack order)).reverse.takeWhile
            fun it => c.huLogMinleak ≤ it.size)
        else m)
      (fun symbol => ((if c.huLeak then lostEntries c order else []).map
          fun it => (⟨it.size, it.count, shown it.callstack⟩ : LostBlocks)).flatMap
            (LostBlocks.lines t.huLogNosyms symbol)) := by
    cases c.huLeak with
    | true => exact printLost_prints t hld _ m hm
    | false => exact Prints.nothing
  have hleak := ((hlost.trans (put_prints c t ld _ .leakSummary [])).trans
    (put_prints c t ld _ .definitelyLost [counter bytes, counter blocks])).trans
    (put_prints c t ld _ .blank [])
  cases c.huUseafterfree && evicted with
  | true =>
    exact ((hleak.trans (put_prints c t ld _ .warning [])).trans
      (put_prints c t ld _ .blank [])).congr (funext fun symbol => by simp)
  | false => exact hleak.congr (funext fun symbol => by simp)

/-- The error summary, if there is anything to report. -/
theorem printErrors_prints (l : LogState) (m : LogModule) :
    Prints c t ld m
      (if l.totalInvalidDeallocCount > 0 ∨ l.totalInvalidAccessCount > 0 then
        (((m.put t .errorSummary []).put t .deallocations
          [.int l.reportedInvalidDeallocCallstacks.card,
            counter l.totalInvalidDeallocCount]).put t .memoryAccess
          [.int l.reportedInvalidAccessCallstacks.card,
            counter l.totalInvalidAccessCount]).put t .blank []
      else m)
      (fun _ => (if l.totalInvalidDeallocCount > 0 ∨ l.totalInvalidAccessCount > 0 then
        some (l.reportedInvalidDeallocCallstacks.card, l.totalInvalidDeallocCount,
          l.reportedInvalidAccessCallstacks.card, l.totalInvalidAccessCount)
        else none).elim [] errorLines) := by
  split
  · have hlines := ((put_prints c t ld m .errorSummary []).trans
      (put_prints c t ld _ .deallocations [.int l.reportedInvalidDeallocCallstacks.card,
        counter l.totalInvalidDeallocCount])).trans
      (put_prints c t ld _ .memoryAccess [.int l.reportedInvalidAccessCallstacks.card,
        counter l.totalInvalidAccessCount])
    exact (hlines.trans (put_prints c t ld _ .blank [])).congr (funext fun _ => rfl)
  · exact Prints.nothing

/-- `log_summary` -/
theorem follows_logSummary (h : Follows c t given l m) (hgiven : given ld)
    (hld : ld.Answers c) (ondemand evicted : Bool)
    (order : List HuAllocinfoT) :
    Follows c t given (logSummary c ondemand evicted order l)
      (m.logSummary c t ld ondemand evicted order) := by
  unfold logSummary LogModule.logSummary
  split
  · refine Follows.entry (e := .summary (summaryOf c ondemand evicted order l)) h rfl rfl
      hgiven (?_ : Prints c t ld m _ _)
    have hondemand : Prints c t ld m (if ondemand then m.put t .onDemand [] else m)
        (fun _ => if ondemand then [⟨.onDemand, []⟩] else []) := by
      split
      · exact put_prints c t ld m .onDemand []
      · exact Prints.nothing
    have herrors := hondemand.trans (printErrors_prints m.tables _)
    have hheap := (((((herrors.trans (put_prints c t ld _ .heapSummary [])).trans
      (put_prints c t ld _ .inUse
        [counter (order.foldl (fun total it => total + UInt64.ofNat it.size) 0),
          counter (UInt64.ofNat order.length)])).trans
      (put_prints c t ld _ .totalUsage [counter m.tables.allocinfoTotalAllocs,
        counter m.tables.allocinfoTotalFrees, counter m.tables.allocinfoTotalAllocBytes])).trans
      (put_prints c t ld _ .peakUsage [counter m.tables.allocinfoPeakAllocBytes])).trans
      (put_prints c t ld _ .blank []))
    have hall := hheap.trans (printLeaks_prints hld evicted
      (order.foldl (fun total it => total + UInt64.ofNat it.size) 0) (UInt64.ofNat order.length)
      order _ (hheap.objfiles h.objfiles))
    refine hall.congr (funext fun symbol => ?_)
    simp only [h.tables, LogEntry.report, Report.lines, SummaryReport.lines, Summary.report,
      summaryOf, List.append_assoc, List.cons_append, List.nil_append]
  · exact h

/-- **A call does to the tables what it does without the file and the caches**,
and prints the entries it adds. -/
theorem Follows.next (h : Follows c t given l m) {i : FileInput} (hgiven : given i.loader)
    (hi : i.loader.Answers c) :
    Follows c t given (l.next c i) (m.next c t i) := by
  unfold LogState.next LogModule.next
  cases i.op with
  | event event ptr size callstack => exact follows_logEvent h hgiven hi event ptr size callstack
  | fault x callstack active freed =>
    exact follows_huSigHandler h hgiven hi x callstack active freed
  | summary ondemand evicted order => exact follows_logSummary h hgiven hi ondemand evicted order
  | enable flag => exact h.onTables (f := logEnable flag) (fun _ => rfl) (fun _ => rfl)
  | removeFreed ptr =>
    refine h.onTables (f := huLogRemoveFreedAllocation c ptr) ?_ ?_
    · intro l
      unfold huLogRemoveFreedAllocation
      split <;> rfl
    · intro l
      unfold huLogRemoveFreedAllocation
      split <;> rfl

end Calls

/-! ## §5 Runs -/

/-- The table of symbols a run has printed. An address that was not looked up
has the symbol of the first call. -/
def LogModule.symbols (m : LogModule) (is : List FileInput) (addr : Nat) : String :=
  (m.symbolCache.lookup addr).getD ((is.head?.map fun i => i.loader.symbol addr).getD "")

section Runs

variable {c : LogConfig} {t : FileConfig}

/-- After every run the module has the tables and the text of the entries. -/
theorem follows_exec (is : List FileInput) (his : ∀ i ∈ is, i.loader.Answers c) :
    Follows c t (fun ld => ∃ i ∈ is, i.loader = ld) (exec (LogState.next c) logInit is)
      (exec (LogModule.next c t) (LogModule.logInit c t) is) := by
  have hrun : ∀ (js : List FileInput) (l : LogState) (m : LogModule), (∀ j ∈ js, j ∈ is) →
      Follows c t (fun ld => ∃ i ∈ is, i.loader = ld) l m →
      Follows c t (fun ld => ∃ i ∈ is, i.loader = ld) (exec (LogState.next c) l js)
        (exec (LogModule.next c t) m js) := by
    intro js
    induction js with
    | nil => exact fun _ _ _ h => h
    | cons j js ih =>
      intro l m hjs h
      have hj := hjs j List.mem_cons_self
      exact ih _ _ (fun k hk => hjs k (List.mem_cons_of_mem j hk))
        (h.next ⟨j, hj, rfl⟩ (his j hj))
  exact hrun is logInit (LogModule.logInit c t) (fun _ => id) Follows.logInit

/-- Every symbol of a run was answered in the run. -/
theorem symbols_answered (is : List FileInput) (his : ∀ i ∈ is, i.loader.Answers c) (addr : Nat) :
    (is = [] ∧ (exec (LogModule.next c t) (LogModule.logInit c t) is).symbols is addr = "") ∨
      ∃ i ∈ is, (exec (LogModule.next c t) (LogModule.logInit c t) is).symbols is addr =
        i.loader.symbol addr := by
  have hfollows := follows_exec (t := t) is his
  cases is with
  | nil => exact .inl ⟨rfl, rfl⟩
  | cons i is =>
    right
    unfold LogModule.symbols
    cases hlookup : (exec (LogModule.next c t) (LogModule.logInit c t)
        (i :: is)).symbolCache.lookup addr with
    | none => exact ⟨i, List.mem_cons_self, rfl⟩
    | some s =>
      obtain ⟨ld, ⟨j, hj, hjld⟩, hs⟩ := hfollows.symbols addr s hlookup
      exact ⟨j, hj, by rw [hjld, hs]; rfl⟩

end Runs

/-- **The log file is the text of the entries**: after every run of the module,
with whatever symbols the libraries answer from one call to the next, the
tables are the ones without file and caches, and the file is the header and
the text of the reports with one table of symbols, all of them answers of the
run. -/
theorem log_file_follows (c : LogConfig) (t : FileConfig) (is : List FileInput)
    (his : ∀ i ∈ is, i.loader.Answers c) :
    (exec (LogModule.next c t) (LogModule.logInit c t) is).tables =
        { exec (LogState.next c) logInit is with logFile := [] } ∧
      ∃ symbol : Nat → String,
        (∀ addr, (is = [] ∧ symbol addr = "") ∨ ∃ i ∈ is, symbol addr = i.loader.symbol addr) ∧
        (exec (LogModule.next c t) (LogModule.logInit c t) is).file =
          (if c.logWritable then t.header else []) ++
            logText t.huLogNosyms symbol t.huPrefix
              (exec (LogState.next c) logInit is).written := by
  have hfollows := follows_exec (t := t) is his
  refine ⟨hfollows.tables, _, symbols_answered (t := t) is his, hfollows.file _ ?_⟩
  intro addr s hs
  simp [LogModule.symbols, hs]

/-- Double free detection, and a log file without a prefix. -/
def freeTwiceLog : LogConfig where
  huLogFree := true
  huLogMinleak := 0
  huUseafterfree := false
  huLeak := false
  huLogRepeat := false
  huPageSize := 4096
  logWritable := true
  objfile := fun _ => "prog"

/-- Every address is in one function of one program. -/
def Loader.oneFunction (name : String) : Loader where
  dladdr := fun _ => some ⟨some "./prog", none, 0⟩
  cxaDemangle := fun _ => (none, -2)
  traceResolver := some fun _ => ⟨name, "", 0⟩

theorem Loader.oneFunction_answers (name : String) :
    (oneFunction name).Answers freeTwiceLog := by
  intro addr
  have hbasename : basename "./prog" = "prog" := by decide +kernel
  simp [oneFunction, objfile, freeTwiceLog, hbasename]

/-- A block of 8 bytes is freed twice, and the name of the function changes. -/
def freeTwiceRun (name : String) : List FileInput :=
  [⟨.enable true, .oneFunction name⟩, ⟨.event .malloc 4096 8 [1, 2], .oneFunction name⟩,
    ⟨.event .free 4096 0 [1, 3], .oneFunction name⟩,
    ⟨.event .free 4096 0 [1, 4], .oneFunction "g"⟩]

/-- The run reports the second free. -/
theorem log_file_follows_double_free :
    (exec (LogModule.next freeTwiceLog (.make true false 77 none none))
        (LogModule.logInit freeTwiceLog (.make true false 77 none none))
        (freeTwiceRun "f")).tables =
      { exec (LogState.next freeTwiceLog) logInit (freeTwiceRun "f") with logFile := [] } ∧
    ∃ symbol : Nat → String,
      (∀ addr, (freeTwiceRun "f" = [] ∧ symbol addr = "") ∨
        ∃ i ∈ freeTwiceRun "f", symbol addr = i.loader.symbol addr) ∧
      (exec (LogModule.next freeTwiceLog (.make true false 77 none none))
          (LogModule.logInit freeTwiceLog (.make true false 77 none none))
          (freeTwiceRun "f")).file =
        (FileConfig.make true false 77 none none).header ++
          logText false symbol (FileConfig.make true false 77 none none).huPrefix
            [.invalidDeallocation (some [4]) 4096 8 (some [3]) (some [2])] := by
  refine log_file_follows freeTwiceLog (.make true false 77 none none) (freeTwiceRun "f") ?_
  simp only [freeTwiceRun, List.forall_mem_cons]
  exact ⟨Loader.oneFunction_answers "f", Loader.oneFunction_answers "f",
    Loader.oneFunction_answers "f", Loader.oneFunction_answers "g", by simp⟩

/-- **The log file determines what was reported**: two runs that leave the same
file made the same reports, if no symbol has a line break. -/
theorem log_file_determines_reports (c c' : LogConfig) (t : FileConfig)
    (hwritable : c.logWritable = c'.logWritable) (is js : List FileInput)
    (his : ∀ i ∈ is, i.loader.Answers c ∧ ∀ addr, '\n' ∉ (i.loader.symbol addr).toList)
    (hjs : ∀ j ∈ js, j.loader.Answers c' ∧ ∀ addr, '\n' ∉ (j.loader.symbol addr).toList)
    (hfile : (exec (LogModule.next c t) (LogModule.logInit c t) is).file =
      (exec (LogModule.next c' t) (LogModule.logInit c' t) js).file) :
    (exec (LogState.next c) logInit is).written = (exec (LogState.next c') logInit js).written := by
  have hbreak : ∀ (c : LogConfig) (is : List FileInput)
      (_ : ∀ i ∈ is, i.loader.Answers c ∧ ∀ addr, '\n' ∉ (i.loader.symbol addr).toList),
      ∀ addr, '\n' ∉
        ((exec (LogModule.next c t) (LogModule.logInit c t) is).symbols is addr).toList := by
    intro c is his addr
    rcases symbols_answered (t := t) is (fun i hi => (his i hi).1) addr with
      ⟨-, hnone⟩ | ⟨i, hi, hsome⟩
    · rw [hnone]
      decide
    · rw [hsome]
      exact (his i hi).2 addr
  have htext : ∀ (c : LogConfig) (is : List FileInput) (_ : ∀ i ∈ is, i.loader.Answers c),
      (exec (LogModule.next c t) (LogModule.logInit c t) is).file =
        (if c.logWritable then t.header else []) ++ logText t.huLogNosyms
          ((exec (LogModule.next c t) (LogModule.logInit c t) is).symbols is) t.huPrefix
          (exec (LogState.next c) logInit is).written := by
    intro c is his
    refine (follows_exec is his).file _ fun addr s hs => ?_
    simp [LogModule.symbols, hs]
  rw [htext c is fun i hi => (his i hi).1, htext c' js fun j hj => (hjs j hj).1, hwritable] at hfile
  exact logText_injective (hbreak c is his) (hbreak c' js hjs) (List.append_cancel_left hfile)

/-- The same with another call at the end. -/
def freeTwiceThenOff (name : String) : List FileInput :=
  freeTwiceRun name ++ [⟨.enable false, .oneFunction name⟩]

/-- The run that frees a block twice, and the one with another call. -/
theorem log_file_determines_reports_double_free :
    (exec (LogState.next freeTwiceLog) logInit (freeTwiceRun "f")).written =
      (exec (LogState.next freeTwiceLog) logInit (freeTwiceThenOff "f")).written := by
  have hsymbol : ∀ name : String, '\n' ∉ name.toList →
      ∀ addr, '\n' ∉ ((Loader.oneFunction name).symbol addr).toList := by
    intro name hname addr
    simpa [Loader.symbol, Loader.oneFunction] using hname
  have hinput : ∀ i ∈ freeTwiceThenOff "f",
      i.loader.Answers freeTwiceLog ∧ ∀ addr, '\n' ∉ (i.loader.symbol addr).toList := by
    have hf : (Loader.oneFunction "f").Answers freeTwiceLog ∧
        ∀ addr, '\n' ∉ ((Loader.oneFunction "f").symbol addr).toList :=
      ⟨Loader.oneFunction_answers "f", hsymbol "f" (by decide)⟩
    have hg : (Loader.oneFunction "g").Answers freeTwiceLog ∧
        ∀ addr, '\n' ∉ ((Loader.oneFunction "g").symbol addr).toList :=
      ⟨Loader.oneFunction_answers "g", hsymbol "g" (by decide)⟩
    simp only [freeTwiceThenOff, freeTwiceRun, List.cons_append, List.nil_append,
      List.forall_mem_cons]
    exact ⟨hf, hf, hf, hg, hf, by simp⟩
  have hsame : ∀ m : LogModule, (LogModule.next freeTwiceLog (.make true false 77 none none) m
      ⟨.enable false, .oneFunction "f"⟩).file = m.file := fun _ => rfl
  have hfile : (exec (LogModule.next freeTwiceLog (.make true false 77 none none))
        (LogModule.logInit freeTwiceLog (.make true false 77 none none))
        (freeTwiceRun "f")).file =
      (exec (LogModule.next freeTwiceLog (.make true false 77 none none))
        (LogModule.logInit freeTwiceLog (.make true false 77 none none))
        (freeTwiceThenOff "f")).file := by
    rw [freeTwiceThenOff, exec_append, exec_cons, exec_nil, hsame]
  exact log_file_determines_reports freeTwiceLog freeTwiceLog (.make true false 77 none none)
    rfl (freeTwiceRun "f") (freeTwiceThenOff "f")
    (fun i hi => hinput i (List.mem_append_left _ hi)) hinput hfile

end Heapusage
