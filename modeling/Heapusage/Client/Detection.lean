/-
Heapusage.Client.Detection — from a bad access of the program to the log file.

What the tool is for: an access past the end of a block, or to a block that was given
up, faults, and the report of the fault says which block it is and where the program
obtained it. The parts are there: the protection of the pages (`Client.Conservation`),
the records of the log (`Client.LeakReport`, `Client.Attribution`), the search of the
fault handler (`Client.FenceFaults`) and the file (`Main.Transcript`).

§1 Runs      — the invariants of the layers, side by side (`DetectInv`).
§2 Reports   — the file after a fault, whatever the search found (`Faults.file`).
§3 Overruns  — which accesses behind a block fault, and what is said of them
               (`overrun_detected`).
§4 Dangling pointers (`dangling_access_reported`).
-/
import Heapusage.Client.Accesses
import Heapusage.Client.LeakReport
import Heapusage.Client.LifeCycle
import Heapusage.Main.Transcript

namespace Heapusage

open Arenas Runs Tables Words Zones

/-! ## §1 Runs -/

/-- A clean step, with `mprotect` succeeding. -/
structure Trace.Obeyed (c : HuConfig) (σ : Trace) (i : Input) : Prop where
  clean : σ.Clean c i
  mprotectOk : ∀ addr len prot, i.env.ans.mprotectOk addr len prot = true

/-- The state after a run of calls by any threads. -/
def Trace.after (c : HuConfig) (is : List (Tid × Input)) : Trace :=
  exec (Trace.next c) (.init c) (is.map Prod.snd)

/-- What the layers keep. -/
structure DetectInv (c : HuConfig) (σ : Trace) : Prop where
  leak : LeakInv c σ
  life : LifeInv c ⟨σ.session, true⟩
  attr : c.huUseafterfree = true → AttrInv c σ

namespace DetectInv

variable {c : HuConfig} {σ : Trace} {i : Input}

theorem init (c : HuConfig) : DetectInv c (.init c) where
  leak := LeakInv.init c
  life := (LifeInv.start (c := c)).next (i := .init) rfl
  attr _ := AttrInv.init c

theorem next (h : DetectInv c σ) (hi : σ.Obeyed c i) : DetectInv c (σ.next c i) where
  leak := h.leak.next hi.clean
  life := h.life.call (i := i)
    { permitted := hi.clean.permitted
      fits := hi.clean.fits
      mprotectOk := hi.mprotectOk
      succeeds := hi.clean.succeeds }
  attr huaf := (h.attr huaf).next huaf
    ⟨hi.clean.permitted.handled, (Session.Clean.sound hi.clean).lands⟩

theorem of_run {is : List (Tid × Input)}
    (hrun : Along (Trace.next c) (Trace.Obeyed c) (.init c) (is.map Prod.snd)) :
    DetectInv c (.after c is) :=
  have hstep : ∀ σ i, DetectInv c σ → σ.Obeyed c i → DetectInv c (σ.next c i) :=
    fun _ _ h hi => h.next hi
  Along.invariant hstep _ _ (DetectInv.init c) hrun

/-- With the fenced allocator on. -/
theorem alloc (h : DetectInv c σ) (hon : c.huEnableHumalloc = true) :
    AllocInv c.mallocConfig σ.session := h.life.fenced hon

end DetectInv

/-! ## §2 Reports -/

/-- A fault with this callstack is reported. -/
structure LogState.ReportsFault (c : LogConfig) (l : LogState) (callstack : Callstack) : Prop where
  valid : logIsValidCallstack c callstack false = true
  captured : callstack ≠ []
  first : callstack.tail ∉ l.reportedInvalidAccessCallstacks ∨ c.huLogRepeat = true
  writable : c.logWritable = true

theorem huSigHandler_logFile {c : LogConfig} {l : LogState} {callstack : Callstack}
    (h : l.ReportsFault c callstack) (x : Nat) (active freed : List HuAllocinfoT) :
    (huSigHandler c x callstack active freed l).logFile =
      .invalidAccess callstack x (sigSearch c.huPageSize x active freed) :: l.logFile := by
  unfold huSigHandler
  rw [if_pos h.valid]
  simp only [if_neg h.captured, if_pos (And.intro h.first h.writable)]

/-- The program makes the calls, and then a thread faults at `x`; the tables are gone
through in some order, and the libraries answer as they do. -/
structure Faults (c : HuConfig) (is : List (Tid × Input)) (x : Nat) (callstack : Callstack)
    (steps : List (ProcessStep × Loader)) : Prop where
  fault : ∃ t active freed,
    steps.map Prod.fst =
      (is.map Step.ofCall).map .step ++ [ProcessStep.fault t x callstack active freed] ∧
    active.Perm (values (Trace.after c is).tool.log.allocations) ∧
    freed.Perm (values (Trace.after c is).tool.log.freedAllocations)
  loaders : ∀ i ∈ steps, i.2.Answers c.logConfig
  reported : (Trace.after c is).tool.log.ReportsFault c.logConfig callstack

/-- The file after calls and one more step that makes one entry. -/
theorem Trace.file_after {c : HuConfig} {is : List (Tid × Input)}
    {steps : List (ProcessStep × Loader)} {last : ProcessStep} {entry : LogEntry} (f : FileConfig)
    (hsteps : steps.map Prod.fst = (is.map Step.ofCall).map .step ++ [last])
    (hloaders : ∀ i ∈ steps, i.2.Answers c.logConfig) (hopen : c.logWritable = true)
    (hentry : (Process.advance c ⟨(Trace.after c is).tool, fun _ => .fresh⟩ last).tool.log.logFile =
      entry :: (Trace.after c is).tool.log.logFile) :
    ∃ symbol : Nat → String,
      (∀ addr, ∃ i ∈ steps, symbol addr = i.2.symbol addr) ∧
      (exec (Transcript.next c f) (.start c f) steps).hulog.file =
        f.header ++ logText f.huLogNosyms symbol f.huPrefix
          ((Trace.after c is).tool.log.written ++ [entry.report]) := by
  obtain ⟨symbol, hsymbol, hfile⟩ := Transcript.exec_file c f steps hloaders
  have hne : steps ≠ [] := by
    rintro rfl
    simp at hsteps
  have hcalls : exec (Process.next c) (.start c) (is.map Step.ofCall) =
      ⟨(Trace.after c is).tool, fun _ => .fresh⟩ := Process.exec_calls c is (.init c)
  have hlast : exec (Process.advance c) (.start c) (steps.map Prod.fst) =
      Process.advance c ⟨(Trace.after c is).tool, fun _ => .fresh⟩ last := by
    rw [hsteps, exec_append, Process.exec_steps, hcalls]
    rfl
  refine ⟨symbol, hsymbol hne, ?_⟩
  rw [hfile, if_pos hopen, LogState.written, hlast, hentry]
  simp [LogState.written]

/-- **The file after a fault**, if the search finds the same in every order. -/
theorem Faults.file {c : HuConfig} {is : List (Tid × Input)} {x : Nat} {callstack : Callstack}
    {steps : List (ProcessStep × Loader)} (h : Faults c is x callstack steps) (f : FileConfig)
    {found : Option Attribution}
    (hfound : ∀ active freed,
      active.Perm (values (Trace.after c is).tool.log.allocations) →
      freed.Perm (values (Trace.after c is).tool.log.freedAllocations) →
      sigSearch c.huPageSize x active freed = found) :
    ∃ symbol : Nat → String,
      (∀ addr, ∃ i ∈ steps, symbol addr = i.2.symbol addr) ∧
      (exec (Transcript.next c f) (.start c f) steps).hulog.file =
        f.header ++ logText f.huLogNosyms symbol f.huPrefix
          ((Trace.after c is).tool.log.written ++
            [.invalidAccess (shown callstack) (found.map (Attribution.finding x))]) := by
  obtain ⟨t, active, freed, hsteps, hactive, hfreed⟩ := h.fault
  have hentry := huSigHandler_logFile h.reported x active freed
  rw [show c.logConfig.huPageSize = c.huPageSize from rfl, hfound active freed hactive hfreed]
    at hentry
  have hopen : c.logWritable = true := h.reported.writable
  obtain ⟨symbol, hsymbol, hfile⟩ := Trace.file_after f hsteps h.loaders hopen hentry
  exact ⟨symbol, hsymbol, hfile⟩

/-! ## §3 Overruns -/

namespace DetectInv

variable {c : HuConfig} {σ : Trace} {p n k : Nat}

/-- Behind a block up to the end of its fence: what is on the fence faults, and what
the rounding of the size has left in front of it does not. -/
theorem overrun_faults_iff (h : DetectInv c σ) (hov : c.huOverflow = true)
    (hp : (p, n) ∈ σ.client) (hact : p ∈ σ.tool.mal.huActiveAllocs)
    (hk : n + k < ceilTo n huSizeMultiple + c.huPageSize) :
    σ.tool.sys.prot (p + n + k) = .none ↔ ceilTo n huSizeMultiple ≤ n + k := by
  have halloc : AllocInv c.mallocConfig σ.session :=
    h.alloc (by simp [HuConfig.huEnableHumalloc, hov])
  obtain ⟨b, hb⟩ := exists_lookup hact
  have hmem : b ∈ values σ.tool.mal.huActiveAllocs := mem_values_of_lookup hb
  have hshaped : b.Shaped c.mallocConfig := halloc.heap.owned_good b (List.mem_append_left _ hmem)
  have hkey := halloc.heap.active_key p b hb
  have hsize := halloc.heap.fenced_size hp hb
  subst hkey hsize
  have hstop := hshaped.userPtr_fenced hov
  have hstart := hshaped.sysPtr_le
  have hpage : c.mallocConfig.huPageSize = c.huPageSize := rfl
  have hcov : (activeZone c.mallocConfig b).Covers (b.userPtr + b.userSize + k) :=
    ⟨by show b.sysPtr ≤ _; omega, by show _ < b.sysPtr + b.sysSize; omega⟩
  have hpaint : σ.tool.sys.prot (b.userPtr + b.userSize + k) = _ :=
    halloc.pages.painted.inside _ (List.mem_append_left _ (List.mem_map_of_mem hmem)) _ hcov
  rw [hpaint, hshaped.activeZone_none_iff hcov]
  constructor
  · rintro ⟨-, hlo, -⟩
    omega
  · intro hlo
    exact ⟨hov, by omega, by omega⟩

/-- The search finds the block, where no other window has the address. -/
theorem overrun_found (h : DetectInv c σ) (hov : c.huOverflow = true)
    (hp : (p, n) ∈ σ.client) (hact : p ∈ σ.tool.mal.huActiveAllocs)
    (hlo : ceilTo n huSizeMultiple ≤ n + k)
    (hk : n + k < ceilTo n huSizeMultiple + c.huPageSize)
    (hfound : σ.session.FenceFaultFound c p n (p + n + k)) {active freed : List HuAllocinfoT}
    (hactive : active.Perm (values σ.tool.log.allocations))
    (hfreed : freed.Perm (values σ.tool.log.freedAllocations)) :
    sigSearch c.huPageSize (p + n + k) active freed =
      some (.afterAlloc k ⟨p, n, σ.birth p, [], 1⟩) := by
  have hfault := h.leak.fault
  obtain ⟨b, hb⟩ := exists_lookup hact
  have hown := MallocState.active_owned hb
  have hkey : b.userPtr = p := hfault.heap.active_key p b hb
  have hsize : b.userSize = n := hfault.heap.fenced_size hp hb
  have hgood := hfault.session.heap.owned_good b hown
  obtain ⟨r, hr, hptr, hrn⟩ := hfault.record hp (hsize ▸ hgood.2.1) (hsize ▸ hgood.2.2)
  have hborn : r = ⟨p, n, σ.birth p, [], 1⟩ := by rw [h.leak.born p r hr, hrn]
  subst hkey hsize
  have hx : OnFence c b (b.userPtr + b.userSize + k) := ⟨by omega, by omega⟩
  have hlayout := (hfault.heap.owned_good b hown).fenceLayout hov hx.page_pos
    (hfault.heap.owned_live b hown)
  have hrmem : r ∈ values σ.tool.log.allocations := mem_values_of_lookup hr
  have hothers := (hfault.others_clear_iff hov hb hx).mpr hfound.clear
  have hoffset : sub 64 (b.userPtr + b.userSize + k) r.stop = k := by
    rw [own_offset hlayout hx hptr hrn, Nat.add_sub_cancel_left]
  have hwindow := (own_window hlayout hx hptr hrn).mpr ⟨hfound.near, hfound.word⟩
  have hclear : ∀ a ∈ values σ.tool.log.allocations, a ≠ r →
      afterBlock c.huPageSize a (b.userPtr + b.userSize + k) = false := fun a ha hne =>
    hothers a ha (by rwa [← hptr, ← hfault.record_ne_iff hrmem ha])
  rw [← hborn, sigSearch_active_every_order.mpr ⟨⟨hrmem, hwindow⟩, hclear⟩ active freed hactive
    hfreed, hoffset]

end DetectInv

/-- **From an overrun to the log file**: along every clean run with overflow detection,
behind a fenced block of `n` bytes at `p`, up to the end of its fence, an access `k`
bytes past the end faults exactly if it is past the rounded size too; and unless the
window of the search ends before or another block has it as well, the report of the
fault names the block, its size, the distance and the callstack the program obtained
it at, in whatever order the tables are gone through. -/
theorem overrun_detected (c : HuConfig) (f : FileConfig) (hov : c.huOverflow = true)
    (is : List (Tid × Input))
    (hrun : Along (Trace.next c) (Trace.Obeyed c) (.init c) (is.map Prod.snd)) (p n k : Nat)
    (hp : (p, n) ∈ (Trace.after c is).client)
    (hact : p ∈ (Trace.after c is).tool.mal.huActiveAllocs)
    (hk : n + k < ceilTo n huSizeMultiple + c.huPageSize) :
    let σ := Trace.after c is
    (σ.tool.sys.prot (p + n + k) = .none ↔ ceilTo n huSizeMultiple ≤ n + k) ∧
      ∀ callstack steps, Faults c is (p + n + k) callstack steps →
        σ.tool.sys.prot (p + n + k) = .none → σ.session.FenceFaultFound c p n (p + n + k) →
        ∃ symbol : Nat → String,
          (∀ addr, ∃ i ∈ steps, symbol addr = i.2.symbol addr) ∧
          (exec (Transcript.next c f) (.start c f) steps).hulog.file =
            f.header ++ logText f.huLogNosyms symbol f.huPrefix (σ.tool.log.written ++
              [.invalidAccess (shown callstack) (some (.afterAlloc (p + n + k) (asLong k)
                (asLong n) (shown (σ.birth p))))]) := by
  intro σ
  have h : DetectInv c σ := DetectInv.of_run hrun
  refine ⟨h.overrun_faults_iff hov hp hact hk, fun callstack steps hfaults hnone hfound => ?_⟩
  have hlo := (h.overrun_faults_iff hov hp hact hk).mp hnone
  exact hfaults.file f fun active freed hactive hfreed =>
    h.overrun_found hov hp hact hlo hk hfound hactive hfreed

/-- A block of 8 bytes, written to where its rounded size ends. -/
theorem overrun_detected_write_past_end :
    ∃ symbol : Nat → String,
      (exec (Transcript.next fenceOfProg (.make true false 77 none none))
        (.start fenceOfProg (.make true false 77 none none)) writePastEnd).hulog.file =
        (FileConfig.make true false 77 none none).header ++
          logText false symbol (FileConfig.make true false 77 none none).huPrefix
            [.invalidAccess (some [5]) (some (.afterAlloc 12288 8 8 (some [2])))] := by
  have hclient : (Trace.after fenceOfProg [(0, ⟨.malloc 8, .answering 8192⟩)]).client =
      [(12272, 8)] := by decide
  obtain ⟨hfaults, hreport⟩ := overrun_detected fenceOfProg (.make true false 77 none none) rfl
    [(0, ⟨.malloc 8, .answering 8192⟩)] ⟨⟨by decide, fun _ _ _ => rfl⟩, trivial⟩ 12272 8 8
    (by decide) (by decide) (by decide)
  have hsteps : Faults fenceOfProg [(0, ⟨.malloc 8, .answering 8192⟩)] 12288 [1, 5] writePastEnd :=
    { fault := ⟨0, [⟨12272, 8, [1, 2], [], 1⟩], [], rfl, by decide, by decide⟩
      loaders := by
        simp only [writePastEnd, List.forall_mem_cons]
        exact ⟨Loader.oneFunction_answers "f", Loader.oneFunction_answers "f", by simp⟩
      reported := ⟨by decide, by decide, by decide, rfl⟩ }
  have hclear : ∀ q m,
      (q, m) ∈ (Trace.after fenceOfProg [(0, ⟨.malloc 8, .answering 8192⟩)]).client → 0 < m →
      8 ≤ m → q ∉ (Trace.after fenceOfProg
        [(0, ⟨.malloc 8, .answering 8192⟩)]).tool.mal.huActiveAllocs → q + m + 4096 ≠ 12288 := by
    intro q m hq _ _ hact
    rw [hclient] at hq
    cases List.mem_singleton.mp hq
    exact absurd (by decide) hact
  obtain ⟨symbol, -, hfile⟩ := hreport [1, 5] writePastEnd hsteps (hfaults.mpr (by decide))
    ⟨by decide, by decide, hclear⟩
  exact ⟨symbol, hfile⟩

/-! ## §4 Dangling pointers -/

namespace DetectInv

variable {c : HuConfig} {σ : Trace} {b : HuAllocInfo} {k : Nat}

/-- The bytes of a block in the quarantine. -/
theorem dangling_faults (h : DetectInv c σ) (huaf : c.huUseafterfree = true)
    (hb : b ∈ σ.tool.mal.huQuarantineAllocs) (hk : k < b.userSize) :
    σ.tool.sys.prot (b.userPtr + k) = .none ∧ b.userPtr + k < 2 ^ 64 := by
  have halloc : AllocInv c.mallocConfig σ.session :=
    h.alloc (by simp [HuConfig.huEnableHumalloc, huaf])
  have hown := MallocState.queue_owned hb
  have hshaped : b.Shaped c.mallocConfig := halloc.heap.owned_good b hown
  have hround := le_ceilTo b.userSize huSizeMultiple
  have hle := hshaped.rounded_le
  have hstart := hshaped.sysPtr_le
  have hcov : (queuedZone b).Covers (b.userPtr + k) :=
    ⟨by show b.sysPtr ≤ _; omega, by show _ < b.sysPtr + b.sysSize; omega⟩
  refine ⟨halloc.pages.painted.inside _ (List.mem_append_right _ (List.mem_map_of_mem hb)) _ hcov,
    ?_⟩
  have hinside := (σ.tool.sys.arena.inside _ (halloc.heap.owned_live b hown)).2
  have hstop : b.region.stop = b.sysPtr + max b.sysSize 1 := rfl
  omega

/-- The search finds the block, where its record is there and no other window has the
address. -/
theorem dangling_found (h : DetectInv c σ) (huaf : c.huUseafterfree = true)
    (hb : b ∈ σ.tool.mal.huQuarantineAllocs) (hk : k < b.userSize)
    (hclear : σ.Unmasked c b (b.userPtr + k)) {active freed : List HuAllocinfoT}
    (hactive : active.Perm (values σ.tool.log.allocations))
    (hfreed : freed.Perm (values σ.tool.log.freedAllocations)) :
    sigSearch c.huPageSize (b.userPtr + k) active freed = some (.insideFree k (σ.record b)) := by
  have hattr := h.attr huaf
  obtain ⟨-, hword⟩ := h.dangling_faults huaf hb hk
  obtain ⟨r, hr⟩ := exists_lookup hclear.recorded
  have hown : r = σ.record b := hattr.own b hb r hr
  subst hown
  have hmem := mem_values_of_lookup hr
  have hothers : ∀ d ∈ values σ.tool.log.freedAllocations, d ≠ σ.record b →
      afterBlock c.huPageSize d (b.userPtr + k) = false ∧
        insideBlock c.huPageSize d (b.userPtr + k) = false := by
    intro d hd hne
    refine hclear.freed d hd fun hptr => hne ?_
    obtain ⟨j, hj⟩ := mem_values.mp hd
    rw [← hattr.keyed.freed j d hj, hptr] at hj
    exact hattr.own b hb d hj
  have hoffset : sub 64 (b.userPtr + k) (σ.record b).ptr = k := by
    have hsub : sub 64 (b.userPtr + k) (σ.record b).ptr = b.userPtr + k - b.userPtr :=
      sub_eq (Nat.le_add_right _ _) hword
    rw [hsub, Nat.add_sub_cancel_left]
  rw [sigSearch_every_order.mpr ⟨⟨hmem, hclear.notAfter, hclear.inside⟩, hclear.active, hothers⟩
    active freed hactive hfreed, hoffset]

end DetectInv

/-- **From a dangling pointer to the log file**: along every clean run with
use-after-free detection, an access to the bytes of a block in the quarantine faults;
and if its record is still there and no other window has the address, the report of the
fault names the block, its size, the offset and the callstacks of the calls that gave
it up and that obtained it. -/
theorem dangling_access_reported (c : HuConfig) (f : FileConfig) (huaf : c.huUseafterfree = true)
    (is : List (Tid × Input))
    (hrun : Along (Trace.next c) (Trace.Obeyed c) (.init c) (is.map Prod.snd)) (b : HuAllocInfo)
    (hb : b ∈ (Trace.after c is).tool.mal.huQuarantineAllocs) (k : Nat) (hk : k < b.userSize) :
    let σ := Trace.after c is
    σ.tool.sys.prot (b.userPtr + k) = .none ∧
      ∀ callstack steps, Faults c is (b.userPtr + k) callstack steps →
        σ.Unmasked c b (b.userPtr + k) →
        ∃ symbol : Nat → String,
          (∀ addr, ∃ i ∈ steps, symbol addr = i.2.symbol addr) ∧
          (exec (Transcript.next c f) (.start c f) steps).hulog.file =
            f.header ++ logText f.huLogNosyms symbol f.huPrefix (σ.tool.log.written ++
              [.invalidAccess (shown callstack) (some (.insideFree (b.userPtr + k) (asLong k)
                (asLong b.userSize) (shown (σ.death b.userPtr))
                (shown (σ.birth b.userPtr))))]) := by
  intro σ
  have h : DetectInv c σ := DetectInv.of_run hrun
  refine ⟨(h.dangling_faults huaf hb hk).1, fun callstack steps hfaults hclear => ?_⟩
  exact hfaults.file f fun active freed hactive hfreed =>
    h.dangling_found huaf hb hk hclear hactive hfreed

/-- Use-after-free detection with room in the quarantine, for programs of one object file. -/
def quarantineOfProg : HuConfig := { quarantineConfig with objfile := fun _ => "prog" }

/-- A block of 8 bytes is given up, and its fourth byte read. -/
def readAfterFree : List (ProcessStep × Loader) :=
  [(.step (.call 0 (.malloc 8) (.answering 8192)), .oneFunction "f"),
    (.step (.call 0 (.free 8192) (.answering 0)), .oneFunction "f"),
    (.fault 0 8195 [1, 5] [] [⟨8192, 8, [1, 2], [1, 3], 1⟩], .oneFunction "f")]

/-- The report has both callstacks of the block. -/
theorem dangling_access_reported_read_after_free :
    ∃ symbol : Nat → String,
      (exec (Transcript.next quarantineOfProg (.make true false 77 none none))
        (.start quarantineOfProg (.make true false 77 none none)) readAfterFree).hulog.file =
        (FileConfig.make true false 77 none none).header ++
          logText false symbol (FileConfig.make true false 77 none none).huPrefix
            [.invalidAccess (some [5]) (some (.insideFree 8195 3 8 (some [3]) (some [2])))] := by
  obtain ⟨-, hreport⟩ := dangling_access_reported quarantineOfProg (.make true false 77 none none)
    rfl [(0, ⟨.malloc 8, .answering 8192⟩), (0, ⟨.free 8192, .answering 0⟩)]
    ⟨⟨by decide, fun _ _ _ => rfl⟩, ⟨by decide, fun _ _ _ => rfl⟩, trivial⟩
    ⟨8192, 8, 8192, 4096⟩ (by decide) 3 (by decide)
  have hsteps : Faults quarantineOfProg [(0, ⟨.malloc 8, .answering 8192⟩),
      (0, ⟨.free 8192, .answering 0⟩)] 8195 [1, 5] readAfterFree :=
    { fault := ⟨0, [], [⟨8192, 8, [1, 2], [1, 3], 1⟩], rfl, by decide, by decide⟩
      loaders := by
        simp only [readAfterFree, List.forall_mem_cons]
        exact ⟨Loader.oneFunction_answers "f", Loader.oneFunction_answers "f",
          Loader.oneFunction_answers "f", by simp⟩
      reported := ⟨by decide, by decide, by decide, rfl⟩ }
  obtain ⟨symbol, -, hfile⟩ := hreport [1, 5] readAfterFree hsteps
    ⟨by decide, by decide, by decide, by decide, by decide⟩
  exact ⟨symbol, hfile⟩

end Heapusage
