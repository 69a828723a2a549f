/-
Heapusage.Log.LogText — the lines of the log file.

§1 The formats of the `fprintf` calls of `hulog.cpp`, less the `%s` for
   `hu_prefix` each of them starts with, and the two checks on them.
§2 What a report says: the figures and callstacks its lines show. Frame 0 of
   a callstack is never printed, an empty callstack has a line of its own,
   and sizes and offsets of type `size_t` go through `%ld`.
§3 The lines of a report determine it, and so does the text, whatever the
   symbols next to the addresses are.
-/
import Heapusage.Lib.Formats
import Heapusage.Log.HuLog

namespace Heapusage

open Formats Writers

/-! ## §1 Formats -/

/-- The lines of the log file, one for each format. -/
inductive LineKind where
  | invalidDeallocation
  | invalidAccess
  | freedBlock
  | blockAllocd
  | afterAlloc
  | afterFree
  | insideFree
  | frame
  | emptyCallstack
  | blank
  | onDemand
  | errorSummary
  | deallocations
  | memoryAccess
  | heapSummary
  | inUse
  | totalUsage
  | peakUsage
  | lost
  | leakSummary
  | definitelyLost
  | warning
  deriving DecidableEq, Repr

/-- The end of a line. -/
def endOfLine : Format := formatOf "\n" rfl

/-- The format strings of `log_print_callstack`, `log_event`,
`hu_sig_handler` and `log_summary`. -/
def logTable (nosyms : Bool) : LineKind → Format
  | .invalidDeallocation => formatOf "Invalid deallocation at:\n" rfl
  | .invalidAccess => formatOf "Invalid memory access at:\n" rfl
  | .freedBlock => formatOf " Address %p is a block of size %ld free'd at:\n" rfl
  | .blockAllocd => formatOf " Block was alloc'd at:\n" rfl
  | .afterAlloc => formatOf " Address %p is %ld bytes after a block of size %ld alloc'd at:\n" rfl
  | .afterFree => formatOf " Address %p is %ld bytes after a block of size %ld free'd at:\n" rfl
  | .insideFree => formatOf " Address %p is %ld bytes inside a block of size %ld free'd at:\n" rfl
  -- two calls: the address, and the rest of the line
  | .frame =>
      if nosyms then formatOf "   at 0x%016lx\n" rfl else formatOf "   at 0x%016lx: %s\n" rfl
  | .emptyCallstack => formatOf "   error: backtrace() returned empty callstack\n" rfl
  | .blank => endOfLine
  | .onDemand => formatOf "ON DEMAND REPORT\n" rfl
  | .errorSummary => formatOf "ERROR SUMMARY:\n" rfl
  | .deallocations => formatOf "     deallocations: %llu unique (%llu total)\n" rfl
  | .memoryAccess => formatOf "     memory access: %llu unique (%llu total)\n" rfl
  | .heapSummary => formatOf "HEAP SUMMARY:\n" rfl
  | .inUse => formatOf "    in use at exit: %llu bytes in %llu blocks\n" rfl
  | .totalUsage =>
      formatOf "  total heap usage: %llu allocs, %llu frees, %llu bytes allocated\n" rfl
  | .peakUsage => formatOf "   peak heap usage: %llu bytes allocated\n" rfl
  | .lost => formatOf "%zu bytes in %d block(s) are lost, originally allocated at:\n" rfl
  | .leakSummary => formatOf "LEAK SUMMARY:\n" rfl
  | .definitelyLost => formatOf "   definitely lost: %llu bytes in %llu blocks\n" rfl
  | .warning =>
      formatOf "WARNING: use-after-free tracking incomplete, quarantine memory limit exceeded\n" rfl

/-- A line of the log. -/
abbrev LogLine := Line LineKind

/-- All of them. -/
def lineKinds : List LineKind :=
  [.invalidDeallocation, .invalidAccess, .freedBlock, .blockAllocd, .afterAlloc, .afterFree,
    .insideFree, .frame, .emptyCallstack, .blank, .onDemand, .errorSummary, .deallocations,
    .memoryAccess, .heapSummary, .inUse, .totalUsage, .peakUsage, .lost, .leakSummary,
    .definitelyLost, .warning]

theorem mem_lineKinds (k : LineKind) : k ∈ lineKinds := by
  cases k <;> decide

/-- **The formats are told apart by their text**, and their arguments are read back. -/
theorem logTable_checked (nosyms : Bool) : Checked '\n' (logTable nosyms) := by
  have hreadable : ∀ b, ∀ k ∈ lineKinds, readable '\n' (logTable b k) = true := by
    decide +kernel
  have hapart : ∀ b, ∀ k ∈ lineKinds, ∀ l ∈ lineKinds, k ≠ l →
      apart '\n' (logTable b k) (logTable b l) = true := by
    decide +kernel
  exact ⟨fun k => hreadable nosyms k (mem_lineKinds k),
    fun k l => hapart nosyms k (mem_lineKinds k) l (mem_lineKinds l)⟩

/-! ## §2 Reports -/

/-- What the log shows of a callstack: nothing of an empty one, and frame 0 of no other. -/
abbrev ShownStack := Option (List Nat)

/-- The frames `log_print_callstack` prints. -/
def shown (callstack : Callstack) : ShownStack := callstack.tail?

/-- A `size_t` under `%ld`. -/
def asLong (n : Nat) : Int := Int.bmod n (2 ^ 64)

/-- What a report of an invalid access says about the address. -/
inductive Finding where
  | afterAlloc (ptr : Nat) (offset size : Int) (alloc : ShownStack)
  | afterFree (ptr : Nat) (offset size : Int) (freed alloc : ShownStack)
  | insideFree (ptr : Nat) (offset size : Int) (freed alloc : ShownStack)
  deriving DecidableEq

/-- What a line `… are lost` and the callstack under it say. -/
structure LostBlocks where
  size : Nat
  count : Nat
  callstack : ShownStack
  deriving DecidableEq

/-- What a summary says. -/
structure SummaryReport where
  ondemand : Bool
  errors : Option (Nat × UInt64 × Nat × UInt64)
  inUseBytes : UInt64
  inUseBlocks : UInt64
  totalAllocs : UInt64
  totalFrees : UInt64
  totalAllocBytes : UInt64
  peakAllocBytes : UInt64
  lost : List LostBlocks
  quarantineWarning : Bool
  deriving DecidableEq

/-- What the log says in one go. -/
inductive Report where
  | invalidDeallocation (callstack : ShownStack) (ptr : Nat) (size : Int)
      (freed alloc : ShownStack)
  | invalidAccess (callstack : ShownStack) (found : Option Finding)
  | summary (s : SummaryReport)
  deriving DecidableEq

/-- What is printed of an attribution of the address `x`. -/
def Attribution.finding (x : Nat) : Attribution → Finding
  | .afterAlloc offset a =>
      .afterAlloc x (asLong offset) (asLong a.size) (shown a.callstack)
  | .afterFree offset a =>
      .afterFree x (asLong offset) (asLong a.size) (shown a.freeCallstack) (shown a.callstack)
  | .insideFree offset a =>
      .insideFree x (asLong offset) (asLong a.size) (shown a.freeCallstack) (shown a.callstack)

/-- What is printed of a summary. -/
def Summary.report (s : Summary) : SummaryReport where
  ondemand := s.ondemand
  errors := s.errors
  inUseBytes := s.inUseBytes
  inUseBlocks := s.inUseBlocks
  totalAllocs := s.totalAllocs
  totalFrees := s.totalFrees
  totalAllocBytes := s.totalAllocBytes
  peakAllocBytes := s.peakAllocBytes
  lost := s.lost.map fun it => ⟨it.size, it.count, shown it.callstack⟩
  quarantineWarning := s.quarantineWarning

/-- What is printed of an entry. -/
def LogEntry.report : LogEntry → Report
  | .invalidDeallocation callstack ptr block =>
      .invalidDeallocation (shown callstack) ptr (asLong block.size) (shown block.freeCallstack)
        (shown block.callstack)
  | .invalidAccess callstack ptr found =>
      .invalidAccess (shown callstack) (found.map (Attribution.finding ptr))
  | .summary s => .summary s.report

section Lines

variable (nosyms : Bool) (symbol : Nat → String)

/-- The line of a frame. -/
def frameLine (addr : Nat) : LogLine :=
  ⟨.frame, if nosyms then [.addr addr]
    else [.addr addr, .text (if symbol addr = "" then "???" else symbol addr).toList]⟩

/-- The lines of `log_print_callstack`. -/
def stackLines : ShownStack → List LogLine
  | none => [⟨.emptyCallstack, []⟩]
  | some frames => frames.map (frameLine nosyms symbol)

/-- The lines about the address of an invalid access. -/
def Finding.lines : Finding → List LogLine
  | .afterAlloc ptr offset size alloc =>
      ⟨.afterAlloc, [.addr ptr, .int offset, .int size]⟩ :: stackLines nosyms symbol alloc
  | .afterFree ptr offset size freed alloc =>
      ⟨.afterFree, [.addr ptr, .int offset, .int size]⟩ :: (stackLines nosyms symbol freed ++
        ⟨.blockAllocd, []⟩ :: stackLines nosyms symbol alloc)
  | .insideFree ptr offset size freed alloc =>
      ⟨.insideFree, [.addr ptr, .int offset, .int size]⟩ :: (stackLines nosyms symbol freed ++
        ⟨.blockAllocd, []⟩ :: stackLines nosyms symbol alloc)

/-- The lines of one group of lost blocks. -/
def LostBlocks.lines (b : LostBlocks) : List LogLine :=
  ⟨.lost, [.int b.size, .int b.count]⟩ :: (stackLines nosyms symbol b.callstack ++
    [⟨.blank, []⟩])

/-- An unsigned counter as an argument. -/
def counter (n : UInt64) : Arg := .int n.toNat

/-- The lines of the error summary. -/
def errorLines (e : Nat × UInt64 × Nat × UInt64) : List LogLine :=
  [⟨.errorSummary, []⟩, ⟨.deallocations, [.int e.1, counter e.2.1]⟩,
    ⟨.memoryAccess, [.int e.2.2.1, counter e.2.2.2]⟩, ⟨.blank, []⟩]

/-- The lines of `log_summary`. -/
def SummaryReport.lines (s : SummaryReport) : List LogLine :=
  (if s.ondemand then [⟨.onDemand, []⟩] else []) ++ s.errors.elim [] errorLines ++
  [⟨.heapSummary, []⟩,
    ⟨.inUse, [counter s.inUseBytes, counter s.inUseBlocks]⟩,
    ⟨.totalUsage, [counter s.totalAllocs, counter s.totalFrees, counter s.totalAllocBytes]⟩,
    ⟨.peakUsage, [counter s.peakAllocBytes]⟩,
    ⟨.blank, []⟩] ++
  s.lost.flatMap (LostBlocks.lines nosyms symbol) ++
  [⟨.leakSummary, []⟩,
    ⟨.definitelyLost, [counter s.inUseBytes, counter s.inUseBlocks]⟩,
    ⟨.blank, []⟩] ++
  (if s.quarantineWarning then [⟨.warning, []⟩, ⟨.blank, []⟩] else [])

/-- The lines of a report. -/
def Report.lines : Report → List LogLine
  | .invalidDeallocation callstack ptr size freed alloc =>
      ⟨.invalidDeallocation, []⟩ :: (stackLines nosyms symbol callstack ++
        ⟨.freedBlock, [.addr ptr, .int size]⟩ :: (stackLines nosyms symbol freed ++
          ⟨.blockAllocd, []⟩ :: (stackLines nosyms symbol alloc ++ [⟨.blank, []⟩])))
  | .invalidAccess callstack found =>
      ⟨.invalidAccess, []⟩ :: (stackLines nosyms symbol callstack ++
        (found.elim [] (Finding.lines nosyms symbol) ++ [⟨.blank, []⟩]))
  | .summary s => s.lines nosyms symbol

/-- The text of a list of lines, each behind `hu_prefix`. -/
def textOf (huPrefix : List Char) (lines : List LogLine) : List Char :=
  lines.flatMap fun l => huPrefix ++ l.chars (logTable nosyms)

end Lines

/-! ## §3 Reading a report -/

/-- A line without its symbol. -/
def dropSymbol (l : LogLine) : LogLine :=
  if l.kind = .frame then ⟨.frame, l.args.take 1⟩ else l

/-- The lines of a report without symbols. -/
abbrev Report.bare (r : Report) : List LogLine := r.lines true fun _ => ""

section DropSymbol

variable (nosyms : Bool) (symbol symbol' : Nat → String)

theorem dropSymbol_of_ne {k : LineKind} (h : k ≠ .frame) (as : List Arg) :
    dropSymbol ⟨k, as⟩ = ⟨k, as⟩ := if_neg h

theorem stackLines_drop (callstack : ShownStack) :
    (stackLines nosyms symbol callstack).map dropSymbol = stackLines true symbol' callstack := by
  cases callstack with
  | none => rfl
  | some frames =>
    have hframe : ∀ addr, dropSymbol (frameLine nosyms symbol addr) =
        frameLine true symbol' addr := by
      intro addr
      cases nosyms <;> rfl
    simp [stackLines, hframe]

theorem Finding.lines_drop (f : Finding) :
    (f.lines nosyms symbol).map dropSymbol = f.lines true symbol' := by
  cases f <;> simp [Finding.lines, stackLines_drop nosyms symbol symbol', dropSymbol_of_ne]

theorem LostBlocks.lines_drop (b : LostBlocks) :
    (b.lines nosyms symbol).map dropSymbol = b.lines true symbol' := by
  simp [LostBlocks.lines, stackLines_drop nosyms symbol symbol', dropSymbol_of_ne]

theorem SummaryReport.lines_drop (s : SummaryReport) :
    (s.lines nosyms symbol).map dropSymbol = s.lines true symbol' := by
  have hlost : (s.lost.flatMap (LostBlocks.lines nosyms symbol)).map dropSymbol =
      s.lost.flatMap (LostBlocks.lines true symbol') := by
    rw [List.map_flatMap]
    exact congrArg (s.lost.flatMap ·) (funext (LostBlocks.lines_drop nosyms symbol symbol'))
  have herrors : (s.errors.elim [] errorLines).map dropSymbol = s.errors.elim [] errorLines := by
    cases s.errors with
    | none => rfl
    | some e => rfl
  have hfirst : (if s.ondemand then [(⟨.onDemand, []⟩ : LogLine)] else []).map dropSymbol =
      if s.ondemand then [⟨.onDemand, []⟩] else [] := by
    split <;> rfl
  have hlast : (if s.quarantineWarning then
      [(⟨.warning, []⟩ : LogLine), ⟨.blank, []⟩] else []).map dropSymbol =
      if s.quarantineWarning then [⟨.warning, []⟩, ⟨.blank, []⟩] else [] := by
    split <;> rfl
  simp only [SummaryReport.lines, List.map_append, hlost, herrors, hfirst, hlast]
  rfl

/-- Without symbols all logs show a report in the same lines. -/
theorem Report.lines_drop (r : Report) : (r.lines nosyms symbol).map dropSymbol = r.bare := by
  cases r with
  | invalidDeallocation callstack ptr size freed alloc =>
    simp [Report.bare, Report.lines, stackLines_drop nosyms symbol (fun _ => ""),
      dropSymbol_of_ne]
  | invalidAccess callstack found =>
    cases found <;>
      simp [Report.bare, Report.lines, stackLines_drop nosyms symbol (fun _ => ""),
        Finding.lines_drop nosyms symbol (fun _ => ""), dropSymbol_of_ne]
  | summary s => exact s.lines_drop nosyms symbol fun _ => ""

end DropSymbol

section Reading

variable {symbol : Nat → String}

/-- The line is not one of a callstack. -/
def EndsStack (l : LogLine) : Prop := l.kind ≠ .frame ∧ l.kind ≠ .emptyCallstack

theorem stackLines_legible : Legible (stackLines true symbol) EndsStack := by
  have hframes : Legible (List.flatMap fun addr => [frameLine true symbol addr]) EndsStack := by
    have hsymbol : Legible (fun addr => [frameLine true symbol addr]) (fun _ => True) :=
      Legible.of_symbol fun x y h => by simpa [frameLine] using h
    exact hsymbol.many (fun l => l.kind = .frame)
      (fun addr => ⟨_, _, rfl, rfl⟩) (fun _ _ => trivial) (fun _ _ => trivial)
      (fun _ hframe hends => hends.1 hframe)
  have hempty : ∀ (frames : List Nat) (r s : List LogLine), Starts EndsStack s →
      (⟨.emptyCallstack, []⟩ : LogLine) :: r ≠ frames.map (frameLine true symbol) ++ s := by
    intro frames r s hs heq
    cases frames with
    | nil =>
      have hs' : s = ⟨.emptyCallstack, []⟩ :: r := heq.symm
      rw [hs', starts_cons] at hs
      exact hs.2 rfl
    | cons addr frames => simp [frameLine] at heq
  intro a b r s hr hs heq
  cases a with
  | none =>
    cases b with
    | none => simpa [stackLines] using heq
    | some frames' => exact absurd heq (hempty frames' r s hs)
  | some frames =>
    cases b with
    | none => exact absurd heq.symm (hempty frames s r hr)
    | some frames' =>
      simp only [stackLines, List.map_eq_flatMap] at heq
      obtain ⟨hframes', hrs⟩ := hframes hr hs heq
      exact ⟨congrArg some hframes', hrs⟩

/-- A callstack is read up to the line after it. -/
theorem stack_cancel {a b : ShownStack} {x y : LogLine} {r s : List LogLine}
    (hx : EndsStack x) (hy : EndsStack y)
    (h : stackLines true symbol a ++ x :: r = stackLines true symbol b ++ y :: s) :
    a = b ∧ x = y ∧ r = s := by
  obtain ⟨hab, hrest⟩ := stackLines_legible (starts_cons.mpr hx) (starts_cons.mpr hy) h
  exact ⟨hab, List.cons.inj hrest⟩

theorem endsStack {k : LineKind} (hframe : k ≠ .frame) (hempty : k ≠ .emptyCallstack)
    (as : List Arg) : EndsStack ⟨k, as⟩ := ⟨hframe, hempty⟩

/-- The callstacks of a freed block, up to the line after them. -/
theorem stacks_legible : Legible (fun p : ShownStack × ShownStack =>
    stackLines true symbol p.1 ++ ⟨.blockAllocd, []⟩ :: stackLines true symbol p.2)
    EndsStack := by
  intro p q r s hr hs heq
  simp only [List.append_assoc, List.cons_append] at heq
  obtain ⟨hfreed, -, hrest⟩ := stack_cancel (endsStack (by decide) (by decide) [])
    (endsStack (by decide) (by decide) []) heq
  obtain ⟨halloc, hrs⟩ := stackLines_legible hr hs hrest
  exact ⟨Prod.ext hfreed halloc, hrs⟩

theorem Finding.lines_legible : Legible (Finding.lines true symbol) EndsStack := by
  intro f g r s hr hs heq
  cases f with
  | afterAlloc ptr offset size alloc =>
    cases g with
    | afterAlloc ptr' offset' size' alloc' =>
      simp only [Finding.lines, List.cons_append, List.cons.injEq] at heq
      obtain ⟨hline, hrest⟩ := heq
      obtain ⟨rfl, hrs⟩ := stackLines_legible hr hs hrest
      simp only [Line.mk.injEq, List.cons.injEq, Arg.addr.injEq, Arg.int.injEq] at hline
      obtain ⟨-, rfl, rfl, rfl, -⟩ := hline
      exact ⟨rfl, hrs⟩
    | afterFree ptr' offset' size' freed' alloc' => simp [Finding.lines] at heq
    | insideFree ptr' offset' size' freed' alloc' => simp [Finding.lines] at heq
  | afterFree ptr offset size freed alloc =>
    cases g with
    | afterAlloc ptr' offset' size' alloc' => simp [Finding.lines] at heq
    | afterFree ptr' offset' size' freed' alloc' =>
      simp only [Finding.lines, List.cons_append, List.cons.injEq] at heq
      obtain ⟨hline, hrest⟩ := heq
      obtain ⟨hstacks, hrs⟩ := stacks_legible (a := (freed, alloc)) (b := (freed', alloc'))
        hr hs hrest
      simp only [Line.mk.injEq, List.cons.injEq, Arg.addr.injEq, Arg.int.injEq] at hline
      obtain ⟨-, rfl, rfl, rfl, -⟩ := hline
      obtain ⟨rfl, rfl⟩ := Prod.mk.inj hstacks
      exact ⟨rfl, hrs⟩
    | insideFree ptr' offset' size' freed' alloc' => simp [Finding.lines] at heq
  | insideFree ptr offset size freed alloc =>
    cases g with
    | afterAlloc ptr' offset' size' alloc' => simp [Finding.lines] at heq
    | afterFree ptr' offset' size' freed' alloc' => simp [Finding.lines] at heq
    | insideFree ptr' offset' size' freed' alloc' =>
      simp only [Finding.lines, List.cons_append, List.cons.injEq] at heq
      obtain ⟨hline, hrest⟩ := heq
      obtain ⟨hstacks, hrs⟩ := stacks_legible (a := (freed, alloc)) (b := (freed', alloc'))
        hr hs hrest
      simp only [Line.mk.injEq, List.cons.injEq, Arg.addr.injEq, Arg.int.injEq] at hline
      obtain ⟨-, rfl, rfl, rfl, -⟩ := hline
      obtain ⟨rfl, rfl⟩ := Prod.mk.inj hstacks
      exact ⟨rfl, hrs⟩

theorem LostBlocks.lines_legible :
    Legible (LostBlocks.lines true symbol) (fun _ => True) := by
  intro b d r s _ _ heq
  obtain ⟨size, count, callstack⟩ := b
  obtain ⟨size', count', callstack'⟩ := d
  simp only [LostBlocks.lines, List.cons_append, List.append_assoc, List.cons.injEq] at heq
  obtain ⟨hline, hrest⟩ := heq
  obtain ⟨rfl, -, hrs⟩ := stack_cancel (endsStack (by decide) (by decide) [])
    (endsStack (by decide) (by decide) []) hrest
  simp only [Line.mk.injEq, List.cons.injEq, Arg.int.injEq, Int.natCast_inj] at hline
  obtain ⟨-, rfl, rfl, -⟩ := hline
  exact ⟨rfl, hrs⟩

theorem counter_inj {n m : UInt64} : counter n = counter m ↔ n = m := by
  rw [counter, counter, Arg.int.injEq, Int.natCast_inj, UInt64.toNat_inj]

theorem errorLines_legible : Legible errorLines (fun _ => True) := by
  intro e e' r s _ _ heq
  obtain ⟨u, t, v, w⟩ := e
  obtain ⟨u', t', v', w'⟩ := e'
  simpa [errorLines, counter_inj, Int.natCast_inj, and_assoc] using heq

/-- The line starts a report. -/
def OpensReport (l : LogLine) : Prop :=
  l.kind ∈ [.invalidDeallocation, .invalidAccess, .onDemand, .errorSummary, .heapSummary]

theorem SummaryReport.lines_legible : Legible (SummaryReport.lines true symbol) OpensReport := by
  have hflag : ∀ (x : LogLine) (l : List LogLine),
      Legible (fun b : Bool => if b then x :: l else []) (fun y => y.kind ≠ x.kind) :=
    fun x l => Legible.flag fun hx => hx rfl
  have herrors : Legible (fun o : Option _ => o.elim [] errorLines)
      (fun l => l.kind = .heapSummary) :=
    (errorLines_legible.mono fun _ _ => trivial).option
      (fun l => l.kind = .errorSummary) (fun _ => ⟨_, _, rfl, rfl⟩)
      (fun l hfirst hfollow => LineKind.noConfusion (hfirst.symm.trans hfollow))
  have hlost : Legible (List.flatMap (LostBlocks.lines true symbol))
      (fun l => l.kind = .leakSummary) :=
    LostBlocks.lines_legible.many (fun l => l.kind = .lost)
      (fun _ => ⟨_, _, rfl, rfl⟩) (fun _ _ => trivial) (fun _ _ => trivial)
      (fun l hfirst hfollow => LineKind.noConfusion (hfirst.symm.trans hfollow))
  have hwarning : ∀ {r : List LogLine}, Starts OpensReport r →
      Starts (fun y : LogLine => y.kind ≠ .warning) r :=
    fun hr => hr.mono fun l hl hkind => by simp [OpensReport, hkind] at hl
  have hheap : ∀ (e : Option (Nat × UInt64 × Nat × UInt64)) (r : List LogLine),
      Starts (fun y : LogLine => y.kind ≠ .onDemand)
        (e.elim [] errorLines ++ ⟨.heapSummary, []⟩ :: r) := by
    intro e r
    cases e with
    | none => simp
    | some e => simp [errorLines]
  intro a b r s hr hs heq
  obtain ⟨ondemand, errors, bytes, blocks, allocs, frees, total, peak, lost, warned⟩ := a
  obtain ⟨ondemand', errors', bytes', blocks', allocs', frees', total', peak', lost',
    warned'⟩ := b
  simp only [SummaryReport.lines, List.append_assoc, List.cons_append, List.nil_append] at heq
  obtain ⟨rfl, heq⟩ := hflag _ _ (hheap errors _) (hheap errors' _) heq
  obtain ⟨rfl, heq⟩ := herrors (starts_cons.mpr rfl) (starts_cons.mpr rfl) heq
  simp only [List.cons.injEq, Line.mk.injEq, counter_inj, true_and, and_true] at heq
  obtain ⟨⟨rfl, rfl⟩, ⟨rfl, rfl, rfl⟩, rfl, heq⟩ := heq
  obtain ⟨rfl, heq⟩ := hlost (starts_cons.mpr rfl) (starts_cons.mpr rfl) heq
  simp only [List.cons.injEq, true_and] at heq
  obtain ⟨rfl, hrs⟩ := hflag _ _ (hwarning hr) (hwarning hs) heq
  exact ⟨rfl, hrs⟩

/-- The first line of a summary. -/
theorem SummaryReport.opens (symbol : Nat → String) (nosyms : Bool) :
    Opens (SummaryReport.lines nosyms symbol)
      (fun l => l.kind ∈ [.onDemand, .errorSummary, .heapSummary]) := by
  intro s
  cases hondemand : s.ondemand with
  | true => simp [SummaryReport.lines, hondemand]
  | false =>
    cases herrors : s.errors with
    | none => simp [SummaryReport.lines, hondemand, herrors]
    | some e => simp [SummaryReport.lines, hondemand, herrors, errorLines]

theorem Report.opens (nosyms : Bool) : Opens (Report.lines nosyms symbol) OpensReport := by
  intro r
  cases r with
  | invalidDeallocation callstack ptr size freed alloc =>
    exact ⟨_, _, rfl, by simp [OpensReport]⟩
  | invalidAccess callstack found => exact ⟨_, _, rfl, by simp [OpensReport]⟩
  | summary s =>
    obtain ⟨x, l, hlines, hkind⟩ := SummaryReport.opens symbol nosyms s
    refine ⟨x, l, hlines, ?_⟩
    simp only [List.mem_cons, List.not_mem_nil, or_false] at hkind
    rcases hkind with hkind | hkind | hkind <;> simp [OpensReport, hkind]

/-- A summary starts like no other report. -/
theorem SummaryReport.lines_ne (s : SummaryReport) {x : LogLine} {l r : List LogLine}
    (hx : x.kind ∉ [.onDemand, .errorSummary, .heapSummary]) :
    s.lines true symbol ++ r ≠ x :: l := by
  intro heq
  obtain ⟨y, tail, hlines, hkind⟩ := SummaryReport.opens symbol true s
  rw [hlines, List.cons_append, List.cons.injEq] at heq
  rw [heq.1] at hkind
  exact hx hkind

/-- **A report is read back** from its lines without symbols. -/
theorem Report.bare_legible : Legible Report.bare OpensReport := by
  have hblank : ∀ r : List LogLine, Starts (fun l : LogLine => l.kind = .blank)
      (⟨.blank, []⟩ :: r) := fun _ => starts_cons.mpr rfl
  have hfound : Legible (fun o : Option Finding => o.elim [] (Finding.lines true fun _ => ""))
      (fun l => l.kind = .blank) := by
    have hends : Legible (Finding.lines true fun _ => "") (fun l => l.kind = .blank) :=
      Finding.lines_legible.mono fun l hl => by simp [EndsStack, hl]
    exact hends.option (fun l => l.kind ∈ [.afterAlloc, .afterFree, .insideFree])
      (fun f => by cases f <;> exact ⟨_, _, rfl, by simp⟩)
      (fun l hfirst hfollow => by rw [hfollow] at hfirst; exact absurd hfirst (by decide))
  have hends : ∀ (o : Option Finding) (r : List LogLine), Starts EndsStack
      (o.elim [] (Finding.lines true fun _ => "") ++ ⟨.blank, []⟩ :: r) := by
    intro o r
    cases o with
    | none => exact starts_cons.mpr (endsStack (by decide) (by decide) [])
    | some f => cases f <;> exact starts_cons.mpr (endsStack (by decide) (by decide) _)
  intro a b r s hr hs heq
  cases a with
  | invalidDeallocation callstack ptr size freed alloc =>
    cases b with
    | invalidDeallocation callstack' ptr' size' freed' alloc' =>
      simp only [Report.bare, Report.lines, List.cons_append, List.append_assoc, List.cons.injEq,
        true_and] at heq
      obtain ⟨rfl, hline, heq⟩ := stack_cancel (endsStack (by decide) (by decide) _)
        (endsStack (by decide) (by decide) _) heq
      obtain ⟨rfl, -, heq⟩ := stack_cancel (endsStack (by decide) (by decide) _)
        (endsStack (by decide) (by decide) _) heq
      obtain ⟨rfl, -, hrs⟩ := stack_cancel (endsStack (by decide) (by decide) _)
        (endsStack (by decide) (by decide) _) heq
      simp only [Line.mk.injEq, List.cons.injEq, Arg.addr.injEq, Arg.int.injEq] at hline
      obtain ⟨-, rfl, rfl, -⟩ := hline
      exact ⟨rfl, hrs⟩
    | invalidAccess callstack' found' => simp [Report.bare, Report.lines] at heq
    | summary s' => exact absurd heq.symm (s'.lines_ne (by decide))
  | invalidAccess callstack found =>
    cases b with
    | invalidDeallocation callstack' ptr' size' freed' alloc' =>
      simp [Report.bare, Report.lines] at heq
    | invalidAccess callstack' found' =>
      simp only [Report.bare, Report.lines, List.cons_append, List.append_assoc, List.cons.injEq,
        true_and] at heq
      obtain ⟨hcallstack, hrest⟩ := stackLines_legible (hends found _) (hends found' _) heq
      obtain ⟨hfinding, hlast⟩ := hfound (a := found) (b := found') (hblank _) (hblank _) hrest
      exact ⟨by rw [hcallstack, hfinding], (List.cons.inj hlast).2⟩
    | summary s' => exact absurd heq.symm (s'.lines_ne (by decide))
  | summary s =>
    cases b with
    | invalidDeallocation callstack' ptr' size' freed' alloc' =>
      exact absurd heq (s.lines_ne (by decide))
    | invalidAccess callstack' found' => exact absurd heq (s.lines_ne (by decide))
    | summary s' =>
      obtain ⟨rfl, hrs⟩ := SummaryReport.lines_legible hr hs heq
      exact ⟨rfl, hrs⟩

/-- So are the reports of a log. -/
theorem reports_injective : Function.Injective (List.flatMap Report.bare) := by
  have hmany : Legible (List.flatMap Report.bare) (fun _ => False) :=
    Report.bare_legible.many OpensReport (Report.opens true) (fun _ => id) (fun _ => False.elim)
      (fun _ _ => id)
  exact hmany.injective

end Reading

/-! ## §4 Reading the text -/

/-- The line has the arguments its format asks for, and strings without a line break. -/
def LineFits (nosyms : Bool) (l : LogLine) : Prop := Fits '\n' (logTable nosyms l.kind) l.args

section Text

variable {nosyms : Bool} {symbol : Nat → String}

theorem frameLine_fits (hsymbol : ∀ addr, '\n' ∉ (symbol addr).toList) (addr : Nat) :
    LineFits nosyms (frameLine nosyms symbol addr) := by
  cases nosyms with
  | true => exact ⟨trivial, rfl⟩
  | false =>
    refine ⟨trivial, ?_, rfl⟩
    show '\n' ∉ (if symbol addr = "" then "???" else symbol addr).toList
    split
    · decide
    · exact hsymbol addr

theorem stackLines_fit (nosyms : Bool) (hsymbol : ∀ addr, '\n' ∉ (symbol addr).toList)
    (callstack : ShownStack) : ∀ l ∈ stackLines nosyms symbol callstack, LineFits nosyms l := by
  cases callstack with
  | none =>
    intro l hl
    rw [List.mem_singleton.mp hl]
    rfl
  | some frames =>
    intro l hl
    obtain ⟨addr, -, rfl⟩ := List.mem_map.mp hl
    exact frameLine_fits hsymbol addr

theorem Finding.lines_fit (hsymbol : ∀ addr, '\n' ∉ (symbol addr).toList) (f : Finding) :
    ∀ l ∈ f.lines nosyms symbol, LineFits nosyms l := by
  have hstack := stackLines_fit nosyms hsymbol
  cases f with
  | afterAlloc ptr offset size alloc =>
    simp only [Finding.lines, List.forall_mem_cons]
    exact ⟨⟨trivial, trivial, trivial, rfl⟩, hstack alloc⟩
  | afterFree ptr offset size freed alloc =>
    simp only [Finding.lines, List.forall_mem_cons, List.forall_mem_append]
    exact ⟨⟨trivial, trivial, trivial, rfl⟩, hstack freed, rfl, hstack alloc⟩
  | insideFree ptr offset size freed alloc =>
    simp only [Finding.lines, List.forall_mem_cons, List.forall_mem_append]
    exact ⟨⟨trivial, trivial, trivial, rfl⟩, hstack freed, rfl, hstack alloc⟩

theorem SummaryReport.lines_fit (hsymbol : ∀ addr, '\n' ∉ (symbol addr).toList)
    (s : SummaryReport) : ∀ l ∈ s.lines nosyms symbol, LineFits nosyms l := by
  have hlost : ∀ l ∈ s.lost.flatMap (LostBlocks.lines nosyms symbol), LineFits nosyms l := by
    intro l hl
    obtain ⟨b, -, hb⟩ := List.mem_flatMap.mp hl
    have hlines : ∀ l ∈ b.lines nosyms symbol, LineFits nosyms l := by
      simp only [LostBlocks.lines, List.forall_mem_cons, List.forall_mem_append]
      exact ⟨⟨trivial, trivial, rfl⟩, stackLines_fit nosyms hsymbol b.callstack, rfl, by simp⟩
    exact hlines l hb
  have herrors : ∀ l ∈ s.errors.elim [] errorLines, LineFits nosyms l := by
    cases s.errors with
    | none => simp
    | some e =>
      simp only [Option.elim, errorLines, List.forall_mem_cons]
      exact ⟨rfl, ⟨trivial, trivial, rfl⟩, ⟨trivial, trivial, rfl⟩, rfl, by simp⟩
  have hfirst : ∀ l ∈ (if s.ondemand then [(⟨.onDemand, []⟩ : LogLine)] else []),
      LineFits nosyms l := by
    split
    · simp only [List.forall_mem_cons]
      exact ⟨rfl, by simp⟩
    · simp
  have hlast : ∀ l ∈ (if s.quarantineWarning then
      [(⟨.warning, []⟩ : LogLine), ⟨.blank, []⟩] else []), LineFits nosyms l := by
    split
    · simp only [List.forall_mem_cons]
      exact ⟨rfl, rfl, by simp⟩
    · simp
  simp only [SummaryReport.lines, List.forall_mem_append, List.forall_mem_cons]
  refine ⟨⟨⟨⟨⟨hfirst, herrors⟩, ?_⟩, hlost⟩, ?_⟩, hlast⟩
  · exact ⟨rfl, ⟨trivial, trivial, rfl⟩, ⟨trivial, trivial, trivial, rfl⟩, ⟨trivial, rfl⟩, rfl,
      by simp⟩
  · exact ⟨rfl, ⟨trivial, trivial, rfl⟩, rfl, by simp⟩

theorem Report.lines_fit (hsymbol : ∀ addr, '\n' ∉ (symbol addr).toList) (r : Report) :
    ∀ l ∈ r.lines nosyms symbol, LineFits nosyms l := by
  have hstack := stackLines_fit nosyms hsymbol
  cases r with
  | invalidDeallocation callstack ptr size freed alloc =>
    simp only [Report.lines, List.forall_mem_cons, List.forall_mem_append]
    exact ⟨rfl, hstack callstack, ⟨trivial, trivial, rfl⟩, hstack freed, rfl, hstack alloc, rfl,
      by simp⟩
  | invalidAccess callstack found =>
    have hfound : ∀ l ∈ found.elim [] (Finding.lines nosyms symbol), LineFits nosyms l := by
      cases found with
      | none => simp
      | some f => exact f.lines_fit hsymbol
    simp only [Report.lines, List.forall_mem_cons, List.forall_mem_append]
    exact ⟨rfl, hstack callstack, hfound, rfl, by simp⟩
  | summary s => exact s.lines_fit hsymbol

/-- The text of a log: its reports, in the order they were written. -/
def logText (nosyms : Bool) (symbol : Nat → String) (huPrefix : List Char)
    (reports : List Report) : List Char :=
  textOf nosyms huPrefix (reports.flatMap (Report.lines nosyms symbol))

/-- **The text of a log determines its reports**, whatever symbols it shows. -/
theorem logText_injective {symbol' : Nat → String} {huPrefix : List Char}
    {reports reports' : List Report} (hsymbol : ∀ addr, '\n' ∉ (symbol addr).toList)
    (hsymbol' : ∀ addr, '\n' ∉ (symbol' addr).toList)
    (h : logText nosyms symbol huPrefix reports = logText nosyms symbol' huPrefix reports') :
    reports = reports' := by
  have hfit : ∀ {σ : Nat → String} (rs : List Report), (∀ addr, '\n' ∉ (σ addr).toList) →
      ∀ l ∈ rs.flatMap (Report.lines nosyms σ), LineFits nosyms l := by
    intro σ rs hσ l hl
    obtain ⟨r, -, hr⟩ := List.mem_flatMap.mp hl
    exact r.lines_fit hσ l hr
  have hne : ∀ k, logTable nosyms k ≠ [] := by
    intro k
    cases nosyms <;> cases k <;> exact List.cons_ne_nil _ _
  have hlines := (logTable_checked nosyms).lines_injective hne huPrefix (hfit reports hsymbol)
    (hfit reports' hsymbol') h
  have hbare : ∀ (σ : Nat → String) (rs : List Report),
      (rs.flatMap (Report.lines nosyms σ)).map dropSymbol = rs.flatMap Report.bare := by
    intro σ rs
    rw [List.map_flatMap]
    exact congrArg (rs.flatMap ·) (funext (Report.lines_drop nosyms σ))
  refine reports_injective ?_
  rw [← hbare symbol reports, hlines, hbare symbol' reports']

end Text

end Heapusage
