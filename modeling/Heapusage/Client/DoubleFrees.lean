/-
Heapusage.Client.DoubleFrees — from a second release of a block to the log file.

`hu_free` leaves a double free to `log_event`: the address is in `hu_user_addrs`, the
block no longer in `hu_active_allocs`, and nothing is done to the heap. The log has the
record of the block in `freed_allocations`, which with the double-free tool only a call
that returns the address again takes away. So a second `free`, however much later, is
reported with the callstacks of the calls that gave the block up and that obtained it.

§1 Burial — the record of a block after the call that gives it up (`BurialInv.buries`)
            and after the calls that follow (`Buried.next`, `Buried.of_run`).
§2 The second release (`double_free_reported`).
-/
import Heapusage.Client.Detection
import Heapusage.Client.Releases

namespace Heapusage

open Arenas Runs Tables

/-! ## §1 Burial -/

/-- The double-free tool keeps the records of evicted blocks. -/
theorem forgetFreed_kept {lc : LogConfig} (hdf : lc.huLogFree = true) (blocks : List HuAllocInfo)
    (l : LogState) (p : Nat) :
    (forgetFreed lc blocks l).freedAllocations.lookup p = l.freedAllocations.lookup p := by
  rw [forgetFreed_lookup, if_neg (by simp [hdf])]

/-- A call leaves the freed records alone that are neither of its argument nor of its
result. -/
theorem logEvents_freed_ne {c : LogConfig} {e : CallEnv} {q : Nat} {call : Call} {l : LogState}
    {p : Nat} (hlog : l.loggingEnabled = true) (hq : p ≠ q)
    (hp : ∀ k, call.frees = some k → p ≠ k) :
    (logEvents c e q call l).freedAllocations.lookup p = l.freedAllocations.lookup p := by
  have hfree : (freeEvent c e call l).freedAllocations.lookup p =
      l.freedAllocations.lookup p := by
    cases hfr : call.frees with
    | none => rw [freeEvent_of_none _ _ _ _ hfr]
    | some k =>
      rw [freeEvent_of_some _ _ _ _ hfr hlog]
      exact logFree_freed_lookup_ne c k e.freeStack l (hp k hfr)
  rw [← hfree, logEvents]
  cases hal : call.allocs with
  | none => rw [allocEvent_of_none _ _ _ _ _ hal]
  | some n =>
    rw [allocEvent_of_some _ _ _ _ _ hal (by rw [freeEvent_enabled, hlog]), logMalloc_freed]
    split
    · exact AList.lookup_erase_ne hq
    · rfl

/-- A call with an argument gives it up. -/
theorem Call.frees_argument {call : Call} (h : call.argument ≠ 0) :
    call.frees = some call.argument := by
  cases call with
  | malloc size => exact absurd rfl h
  | free ptr => rfl
  | calloc nmemb size => exact absurd rfl h
  | realloc ptr size => exact if_pos h

/-- What holds between the calls of a clean run with the fenced allocator and the
double-free tool. -/
structure BurialInv (c : HuConfig) (σ : Trace) : Prop where
  leak : LeakInv c σ
  keyed : σ.tool.log.Keyed
  recorded : σ.tool.mal.Recorded

/-- The block of the record `r` at `p` was given up, and the address not used since. -/
structure Buried (σ : Trace) (p : Nat) (r : HuAllocinfoT) : Prop where
  record : σ.tool.log.freedAllocations.lookup p = some r
  gone : p ∉ σ.client.ptrs
  once : p ∈ σ.tool.mal.huUserAddrs
  inactive : p ∉ σ.tool.mal.huActiveAllocs

/-- The tools a double free is reported with. -/
structure HuConfig.FindsDoubleFrees (c : HuConfig) : Prop where
  doublefree : c.huDoublefree = true
  humalloc : c.huEnableHumalloc = true

section Burial

variable {c : HuConfig} {σ : Trace} {i : Input} {p n : Nat} {r : HuAllocinfoT}

theorem HuConfig.FindsDoubleFrees.keepsFreed (hc : c.FindsDoubleFrees) :
    c.logConfig.keepsFreed = true := by
  simp [LogConfig.keepsFreed, HuConfig.logConfig, hc.doublefree]

/-- The sets of the allocator after a call. -/
theorem Trace.next_members (hc : c.FindsDoubleFrees) (h : BurialInv c σ) (hi : σ.Clean c i) :
    Members c.mallocConfig i.call (σ.session.result c i).2 σ.tool (σ.next c i).tool := by
  have hinit : σ.tool.mal.huMallocInited = true :=
    h.leak.fault.session.configured.inited.trans hc.humalloc
  have hmembers : Members c.mallocConfig i.call
      (huCall c.mallocConfig c.logConfig i.env.ans i.call σ.tool).2 σ.tool
      (huCall c.mallocConfig c.logConfig i.env.ans i.call σ.tool).1 :=
    huCall_members h.recorded hinit i.call
  have hresult : (σ.session.result c i).2 =
      (huCall c.mallocConfig c.logConfig i.env.ans i.call σ.tool).2 := by
    rw [Session.result_eq, allocHalf, if_pos hc.humalloc]
    rfl
  have hmal : (σ.next c i).tool.mal =
      (huCall c.mallocConfig c.logConfig i.env.ans i.call σ.tool).1.mal := by
    have hsession := congrArg (fun s : Session => s.tool.mal) (h.leak.next_session hi)
    refine hsession.trans ?_
    simp only [Session.next, Session.result, tracked_eq, logHalf_mal, allocHalf, hc.humalloc,
      if_true]
    rfl
  rw [hresult]
  exact ⟨hmal ▸ hmembers.recorded, hmal ▸ hmembers.active, hmal ▸ hmembers.addrs⟩

/-- The allocator half of a call leaves the records. -/
theorem allocHalf_freed (hdf : c.huDoublefree = true) (ans : SysAns) (call : Call) (s : HuState)
    (p : Nat) : (allocHalf c ans call s).1.log.freedAllocations.lookup p =
      s.log.freedAllocations.lookup p := by
  unfold allocHalf
  split
  · rw [huCall_log_eq]
    exact forgetFreed_kept hdf _ _ p
  · rw [libcCall_log]

/-- What the program holds after a call that did not return `p`. -/
theorem Trace.not_held_next (h : LeakInv c σ) (hi : σ.Clean c i)
    (hne : (σ.session.result c i).2 ≠ p) (hp : p ∉ σ.client.ptrs ∨ p = i.call.argument) :
    p ∉ (σ.next c i).client.ptrs := by
  have hheap := h.fault.session.heap
  have hclient : (σ.next c i).client =
      (σ.client.drop i.call.argument).receive (σ.session.result c i).2 i.call.requested :=
    (congrArg Session.client (h.next_session hi)).trans
      (Call.after_eq true hheap.null_not_held (Session.result_free c σ.session i) hi.succeeds)
  intro hmem
  obtain ⟨⟨q, m⟩, hq, rfl⟩ := List.mem_map.mp hmem
  have hdrop : (q, m) ∈ σ.client.drop i.call.argument := by
    rw [hclient, ClientHeap.receive] at hq
    split at hq
    · exact hq
    · exact (List.mem_cons.mp hq).resolve_left fun heq => hne (congrArg Prod.fst heq).symm
  obtain ⟨hold, harg⟩ := (ClientHeap.mem_drop hheap.client_nodup).mp hdrop
  exact hp.elim (fun hgone => hgone (List.mem_map_of_mem hold)) harg

namespace BurialInv

theorem init (c : HuConfig) : BurialInv c (.init c) where
  leak := LeakInv.init c
  keyed := by
    refine ⟨fun k r hk => ?_, fun k r hk => ?_, fun k hk => ?_⟩ <;>
      simp [Trace.init, huInit, logEnable, logInit] at hk
  recorded := by
    have hempty : (Trace.init c).tool.mal.huActiveAllocs = ∅ := huInit_active c
    refine ⟨fun k hk => ?_, fun k b hk => ?_⟩ <;> simp [hempty] at hk

theorem next (hc : c.FindsDoubleFrees) (h : BurialInv c σ) (hi : σ.Clean c i) :
    BurialInv c (σ.next c i) where
  leak := h.leak.next hi
  keyed := by
    rw [h.leak.next_log hi]
    exact allocEvent_keyed hc.keepsFreed
      (freeEvent_keyed (h.keyed.evicted (allocHalf_log c i.env.ans i.call σ.tool)))
  recorded := (Trace.next_members hc h hi).recorded

/-- **The call that gives a fenced block up leaves its record**, with the callstacks of
this call and of the one that obtained it. -/
theorem buries (hc : c.FindsDoubleFrees) (h : BurialInv c σ) (hi : σ.Clean c i)
    (hp : (i.call.argument, n) ∈ σ.client)
    (hact : i.call.argument ∈ σ.tool.mal.huActiveAllocs)
    (hne : (σ.session.result c i).2 ≠ i.call.argument) :
    Buried (σ.next c i) i.call.argument
      ⟨i.call.argument, n, σ.birth i.call.argument, i.env.freeStack, 1⟩ := by
  have hfault := h.leak.fault
  have hnull : i.call.argument ≠ 0 := fun h0 =>
    hfault.session.heap.null_not_held (h0 ▸ List.mem_map_of_mem hp)
  have hmembers := Trace.next_members hc h hi
  refine ⟨?_, Trace.not_held_next h.leak hi hne (.inr rfl),
    (hmembers.addrs _ hnull).mpr (.inl (h.recorded.addr _ hact)),
    fun hk => ((hmembers.active _ hnull).mp hk).2 hact rfl⟩
  obtain ⟨b, hb⟩ := exists_lookup hact
  obtain ⟨-, hpos, hmin⟩ := hfault.session.heap.owned_good b (MallocState.active_owned hb)
  rw [hfault.heap.fenced_size hp hb] at hpos hmin
  obtain ⟨r, hr, -, hsize⟩ := hfault.record hp hpos hmin
  have hborn := h.leak.born _ r hr
  have hev := allocHalf_log c i.env.ans i.call σ.tool
  have hlisted : (allocHalf c i.env.ans i.call σ.tool).1.log.allocations.lookup
      i.call.argument = some r := by
    rw [hev.allocations]
    exact hr
  have hapart := (h.keyed.evicted hev).apart _ (mem_of_lookup hlisted)
  have hfree : (freeEvent c.logConfig i.env i.call
      (allocHalf c i.env.ans i.call σ.tool).1.log).freedAllocations.lookup i.call.argument =
      some ⟨i.call.argument, n, σ.birth i.call.argument, i.env.freeStack, 1⟩ := by
    rw [freeEvent_of_some _ _ _ _ (Call.frees_argument hnull) (h.leak.logs i),
      logFree_freed_listed _ _ _ _ hlisted, if_pos hc.keepsFreed, insertNew_of_not_mem hapart,
      AList.lookup_insert, freedRecord, if_pos hc.keepsFreed, hborn, hsize]
  rw [h.leak.next_log hi, logEvents, ← hfree]
  cases hal : i.call.allocs with
  | none => rw [allocEvent_of_none _ _ _ _ _ hal]
  | some m =>
    rw [allocEvent_of_some _ _ _ _ _ hal (by rw [freeEvent_enabled, h.leak.logs i]), logMalloc_freed,
      if_pos hc.keepsFreed, AList.lookup_erase_ne hne.symm]

end BurialInv

/-- It stays while no call returns the address. -/
theorem Buried.next (hc : c.FindsDoubleFrees) (h : Buried σ p r) (hinv : BurialInv c σ)
    (hi : σ.Clean c i) (hnull : p ≠ 0) (hne : (σ.session.result c i).2 ≠ p) :
    Buried (σ.next c i) p r := by
  have hmembers := Trace.next_members hc hinv hi
  have harg : ∀ k, i.call.frees = some k → p ≠ k := by
    rintro k hk rfl
    rw [← Call.frees_eq_some hk] at hnull h
    exact h.gone (hi.permitted.resolve_left hnull)
  constructor
  · rw [hinv.leak.next_log hi, logEvents_freed_ne (hinv.leak.logs i) hne.symm harg,
      allocHalf_freed hc.doublefree]
    exact h.record
  · exact Trace.not_held_next hinv.leak hi hne (.inl h.gone)
  · exact (hmembers.addrs p hnull).mpr (.inl h.once)
  · intro hk
    rcases ((hmembers.active p hnull).mp hk).1 with hold | ⟨hq, -⟩
    · exact h.inactive hold
    · exact hne hq.symm

/-- From the call that gives a fenced block up on, its record stays. -/
theorem Buried.of_run (hc : c.FindsDoubleFrees) (h : BurialInv c σ)
    (hp : (i.call.argument, n) ∈ σ.client)
    (hact : i.call.argument ∈ σ.tool.mal.huActiveAllocs) (since : List Input)
    (hrun : Along (Trace.next c) (Trace.Clean c) σ (i :: since))
    (hunused : Along (Trace.next c) (fun σ j => (σ.session.result c j).2 ≠ i.call.argument) σ
      (i :: since)) :
    Buried (exec (Trace.next c) σ (i :: since)) i.call.argument
      ⟨i.call.argument, n, σ.birth i.call.argument, i.env.freeStack, 1⟩ := by
  have hnull : i.call.argument ≠ 0 := fun h0 =>
    h.leak.fault.session.heap.null_not_held (h0 ▸ List.mem_map_of_mem hp)
  have hstep : ∀ σ' j, BurialInv c σ' ∧ Buried σ' i.call.argument
        ⟨i.call.argument, n, σ.birth i.call.argument, i.env.freeStack, 1⟩ →
      σ'.Clean c j ∧ (σ'.session.result c j).2 ≠ i.call.argument →
      BurialInv c (σ'.next c j) ∧ Buried (σ'.next c j) i.call.argument
        ⟨i.call.argument, n, σ.birth i.call.argument, i.env.freeStack, 1⟩ :=
    fun σ' j hσ hj => ⟨hσ.1.next hc hj.1, hσ.2.next hc hσ.1 hj.1 hnull hj.2⟩
  obtain ⟨hclean, hrest⟩ := hrun
  obtain ⟨hne, hunused⟩ := hunused
  exact (Along.invariant hstep since _ ⟨h.next hc hclean, h.buries hc hclean hp hact hne⟩
    (Along.and since _ hrest hunused)).2

end Burial

/-! ## §2 The second release -/

/-- A free with this callstack is reported if its pointer is not listed. -/
structure LogState.ReportsFree (c : LogConfig) (l : LogState) (callstack : Callstack) : Prop where
  valid : logIsValidCallstack c callstack false = true
  captured : callstack ≠ []
  first : callstack.tail ∉ l.reportedInvalidDeallocCallstacks ∨ c.huLogRepeat = true
  writable : c.logWritable = true

theorem logFree_logFile_freed {c : LogConfig} {l : LogState} {p : Nat} {r : HuAllocinfoT}
    {callstack : Callstack} (hfree : c.huLogFree = true) (hp : p ∉ l.allocations)
    (hr : l.freedAllocations.lookup p = some r) (h : l.ReportsFree c callstack) :
    (logFree c p callstack l).logFile = .invalidDeallocation callstack p r :: l.logFile := by
  have htables : (logFreeTables c p callstack l).logFile =
      .invalidDeallocation callstack p r :: l.logFile := by
    simp only [logFreeTables, AList.lookup_eq_none.mpr hp, if_pos hfree, hr, invalidDealloc,
      if_pos h.valid, if_neg h.captured, reportInvalidDealloc,
      if_pos (And.intro h.first h.writable)]
    split <;> rfl
  rw [logFree_eq, ← htables]
  split <;> rfl

/-- The program makes the calls, and then a thread frees `p`; the libraries answer as
they do. -/
structure FreesAfter (c : HuConfig) (is : List (Tid × Input)) (p : Nat) (env : CallEnv)
    (steps : List (ProcessStep × Loader)) : Prop where
  calls : ∃ t, steps.map Prod.fst =
    (is.map Step.ofCall ++ [Step.call t (.free p) env]).map ProcessStep.step
  loaders : ∀ i ∈ steps, i.2.Answers c.logConfig
  reported : (Trace.after c is).tool.log.ReportsFree c.logConfig env.freeStack

section Second

variable {c : HuConfig} {σ : Trace} {p : Nat} {r : HuAllocinfoT}

/-- `hu_free` does nothing to a buried block. -/
theorem Buried.huFree_eq (hc : c.FindsDoubleFrees) (h : Buried σ p r) (hinv : BurialInv c σ)
    (lc : LogConfig) (ans : SysAns) : huFree c.mallocConfig lc ans p σ.tool = σ.tool := by
  have hinit : σ.tool.mal.huMallocInited = true :=
    hinv.leak.fault.session.configured.inited.trans hc.humalloc
  rcases huFree_cases c.mallocConfig lc ans p σ.tool hinit with ⟨-, heq⟩ | ⟨-, hnot, -⟩ |
    ⟨-, -, -, heq⟩ | ⟨-, -, b, hb, -⟩
  · exact heq
  · exact absurd h.once hnot
  · exact heq
  · exact absurd (mem_of_lookup hb) h.inactive

/-- The wrapper only logs it. -/
theorem Buried.free_eq (hc : c.FindsDoubleFrees) (h : Buried σ p r) (hinv : BurialInv c σ)
    (env : CallEnv) : (wrapper c env .fresh (.free p) σ.tool).1 =
      { σ.tool with log := logFree c.logConfig p env.freeStack σ.tool.log } := by
  have hlog : σ.tool.log.loggingEnabled = true := hinv.leak.fault.session.configured.logging
  simp only [tracked_eq, allocHalf, hc.humalloc, if_true, huCall, h.huFree_eq hc hinv, logHalf,
    HuState.logEvent, logEvent, hlog]

/-- A buried block is not listed. -/
theorem Buried.unlisted (h : Buried σ p r) (hinv : LeakInv c σ) : p ∉ σ.tool.log.allocations := by
  intro hlisted
  obtain ⟨r', hr'⟩ := exists_lookup hlisted
  have hsize : σ.tool.log.sizeAt p = some r'.size := by
    rw [LogState.sizeAt, hr']
    rfl
  exact h.gone (List.mem_map_of_mem ((hinv.fault.session.mirror p _).mp hsize).1)

end Second

/-- **From a double free to the log file**: in every clean run with the fenced allocator
and the double-free tool, if a fenced block was given up and no call has returned its
address since, a second `free` of it does nothing to the allocator and the heap, and its
report names the block, its size and the callstacks of this call, of the one that gave
the block up and of the one that obtained it. -/
theorem double_free_reported (c : HuConfig) (f : FileConfig) (hc : c.FindsDoubleFrees)
    (before since : List (Tid × Input)) (u : Tid) (i : Input)
    (hrun : Along (Trace.next c) (Trace.Clean c) (.init c)
      ((before ++ (u, i) :: since).map Prod.snd)) (n : Nat)
    (hp : (i.call.argument, n) ∈ (Trace.after c before).client)
    (hact : i.call.argument ∈ (Trace.after c before).tool.mal.huActiveAllocs)
    (hunused : Along (Trace.next c) (fun σ j => (σ.session.result c j).2 ≠ i.call.argument)
      (Trace.after c before) (i :: since.map Prod.snd)) :
    let is := before ++ (u, i) :: since
    let σ := Trace.after c is
    ∀ env : CallEnv,
      (∃ l, (wrapper c env .fresh (.free i.call.argument) σ.tool).1 = { σ.tool with log := l }) ∧
      ∀ steps, FreesAfter c is i.call.argument env steps →
        ∃ symbol : Nat → String,
          (∀ addr, ∃ j ∈ steps, symbol addr = j.2.symbol addr) ∧
          (exec (Transcript.next c f) (.start c f) steps).hulog.file =
            f.header ++ logText f.huLogNosyms symbol f.huPrefix (σ.tool.log.written ++
              [.invalidDeallocation (shown env.freeStack) i.call.argument (asLong n)
                (shown i.env.freeStack)
                (shown ((Trace.after c before).birth i.call.argument))]) := by
  intro is σ env
  have hstep : ∀ σ j, BurialInv c σ → σ.Clean c j → BurialInv c (σ.next c j) :=
    fun _ _ h hj => h.next hc hj
  have hinv : BurialInv c σ := Along.invariant hstep _ _ (BurialInv.init c) hrun
  have hburied : Buried σ i.call.argument
      ⟨i.call.argument, n, (Trace.after c before).birth i.call.argument, i.env.freeStack, 1⟩ := by
    rw [List.map_append, along_append] at hrun
    have hbefore : BurialInv c (Trace.after c before) :=
      Along.invariant hstep _ _ (BurialInv.init c) hrun.1
    have hsplit : σ = exec (Trace.next c) (Trace.after c before) (i :: since.map Prod.snd) := by
      simp only [σ, is, Trace.after, List.map_append, exec_append, List.map_cons]
    rw [hsplit]
    exact Buried.of_run hc hbefore hp hact _ hrun.2 hunused
  refine ⟨⟨_, hburied.free_eq hc hinv env⟩, fun steps hsteps => ?_⟩
  obtain ⟨t, hcalls⟩ := hsteps.calls
  rw [List.map_append] at hcalls
  have hopen : c.logWritable = true := hsteps.reported.writable
  have hentry : (Process.advance c ⟨σ.tool, fun _ => .fresh⟩
      (.step (.call t (.free i.call.argument) env))).tool.log.logFile =
      .invalidDeallocation env.freeStack i.call.argument
        ⟨i.call.argument, n, (Trace.after c before).birth i.call.argument, i.env.freeStack, 1⟩ ::
        σ.tool.log.logFile := by
    show (wrapper c env .fresh (.free i.call.argument) σ.tool).1.log.logFile = _
    rw [hburied.free_eq hc hinv env]
    exact logFree_logFile_freed hc.doublefree (hburied.unlisted hinv.leak) hburied.record
      hsteps.reported
  obtain ⟨symbol, hsymbol, hfile⟩ := Trace.file_after f hcalls hsteps.loaders hopen hentry
  exact ⟨symbol, hsymbol, hfile⟩

/-- All tools, for programs of one object file. -/
def allToolsOfProg : HuConfig := { HuConfig.tools true true true 8 with objfile := fun _ => "prog" }

/-- A block of 8 bytes is given up, another one obtained, and the first one freed again. -/
def freeTwice : List (ProcessStep × Loader) :=
  [(.step (.call 0 (.malloc 8) (.answering 8192)), .oneFunction "f"),
    (.step (.call 0 (.free 12272) (.answering 0)), .oneFunction "f"),
    (.step (.call 0 (.malloc 8) (.answering 16384)), .oneFunction "f"),
    (.step (.call 0 (.free 12272) { CallEnv.answering 0 with freeStack := [1, 7] }),
      .oneFunction "f")]

/-- The quarantine has no room, and yet the record is there. -/
theorem double_free_reported_later :
    ∃ symbol : Nat → String,
      (exec (Transcript.next allToolsOfProg (.make true false 77 none none))
        (.start allToolsOfProg (.make true false 77 none none)) freeTwice).hulog.file =
        (FileConfig.make true false 77 none none).header ++
          logText false symbol (FileConfig.make true false 77 none none).huPrefix
            [.invalidDeallocation (some [7]) 12272 8 (some [3]) (some [2])] := by
  obtain ⟨-, hreport⟩ := double_free_reported allToolsOfProg (.make true false 77 none none)
    ⟨rfl, rfl⟩ [(0, ⟨.malloc 8, .answering 8192⟩)] [(0, ⟨.malloc 8, .answering 16384⟩)] 0
    ⟨.free 12272, .answering 0⟩ ⟨by decide, by decide, by decide, trivial⟩ 8 (by decide)
    (by decide) ⟨by decide, by decide, trivial⟩ { CallEnv.answering 0 with freeStack := [1, 7] }
  have hsteps : FreesAfter allToolsOfProg [(0, ⟨.malloc 8, .answering 8192⟩),
      (0, ⟨.free 12272, .answering 0⟩), (0, ⟨.malloc 8, .answering 16384⟩)] 12272
      { CallEnv.answering 0 with freeStack := [1, 7] } freeTwice :=
    { calls := ⟨0, rfl⟩
      loaders := by
        simp only [freeTwice, List.forall_mem_cons]
        exact ⟨Loader.oneFunction_answers "f", Loader.oneFunction_answers "f",
          Loader.oneFunction_answers "f", Loader.oneFunction_answers "f", by simp⟩
      reported := ⟨by decide, by decide, by decide, rfl⟩ }
  obtain ⟨symbol, -, hfile⟩ := hreport freeTwice hsteps
  exact ⟨symbol, hfile⟩

end Heapusage
