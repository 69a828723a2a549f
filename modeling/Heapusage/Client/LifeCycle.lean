/-
Heapusage.Client.LifeCycle — a process from its first allocation to its last.

Constructors of other libraries allocate before `hu_init` has run, and their
destructors release memory after `hu_fini`. The wrappers are there all the time:
before `hu_init` every file-global flag is off and they are the functions of the
C library, and when `hu_init` turns the fenced allocator on, the program holds
blocks it has never seen. `hu_fini` has the C library release blocks, by calls of
`free` that are calls of the life; then it turns the log off and leaves the allocator on.

§1 Steps    — the process before and after `hu_init` (`Life.next`).
§2 Bypassed — a call of the C library, seen as one of the fenced allocator that
              is below the minimum size (`huCall_passes`); so it is a step of
              the C heap as well.
§3 Before  — what the C library alone keeps (`PlainInv`), and that it is enough
              for the fenced allocator to start from.
§4 Whole lives (`life_refines_heap`).
-/
import Heapusage.Client.Refinement
import Heapusage.Main.Process

namespace Heapusage

open Arenas CHeaps Runs Tables

/-! ## §1 Steps -/

/-- The file-global configuration as the loader finds it. -/
def HuConfig.unset : HuConfig where
  huDoublefree := false
  huLeak := false
  huOverflow := false
  huUseafterfree := false
  huMinsize := 0
  huLogRepeat := false
  huPageSize := 0
  huQuarantineMaxSize := 0
  maxMapCount := 0
  logWritable := false
  objfile := fun _ => ""

/-- `hu_init` in a process that has a heap already. -/
def HuState.huInit (c : HuConfig) (s : HuState) : HuState where
  sys := s.sys
  mal := if c.huEnableHumalloc then huMallocInit s.mal else s.mal
  log := logEnable true logInit

/-- A process, the blocks its program holds, and whether `hu_init` has run. -/
structure Life where
  session : Session
  inited : Bool

/-- What happens in a process: the program or the C library calls a wrapper, the
program stores to a block, `hu_init` runs, or some thread makes a report or goes
through the phases of `hu_fini`. -/
inductive LifeStep where
  | call (i : Input)
  | store (p i : Nat) (v : UInt8)
  | init
  | report (phase : ReportPhase)
  | fini (phase : FiniPhase)

namespace Life

/-- The process before anything has run. -/
def start : Life := ⟨⟨⟨SysHeap.init, mallocStart, logInit⟩, []⟩, false⟩

/-- The configuration the wrappers look at. -/
def config (c : HuConfig) (σ : Life) : HuConfig := if σ.inited then c else .unset

/-- The fenced allocator is on. -/
def fences (c : HuConfig) (σ : Life) : Bool := (σ.config c).huEnableHumalloc

/-- What a wrapper does and returns. -/
def result (c : HuConfig) (σ : Life) (i : Input) : HuState × Nat :=
  wrapper (σ.config c) i.env .fresh i.call σ.session.tool

/-- The tool changes, and the program's heap does not. -/
def onTool (f : HuState → HuState) (σ : Life) : Life :=
  { σ with session := ⟨f σ.session.tool, σ.session.client⟩ }

def next (c : HuConfig) (σ : Life) : LifeStep → Life
  | .call i =>
      { σ with session := ⟨(σ.result c i).1,
          i.call.after (σ.session.tool.keeps i.call) (σ.result c i).2 σ.session.client⟩ }
  | .store p i v => σ.onTool fun s => { s with sys := s.sys.store (p + i) v }
  | .init => { σ.onTool (.huInit c) with inited := true }
  | .report phase => σ.onTool fun s => (huReport c 0 phase ⟨s, fun _ => .fresh⟩).tool
  | .fini phase => σ.onTool fun s => (huFini c 0 phase ⟨s, fun _ => .fresh⟩).tool

/-- A call on null or a live block that succeeds, with `mprotect` succeeding and,
where the fenced allocator is on, a fenced size that does not wrap. -/
structure Serves (c : HuConfig) (σ : Life) (i : Input) : Prop where
  permitted : i.call.Permitted σ.session.client
  fits : σ.fences c = true → 0 < i.call.requested → c.huMinsize ≤ i.call.requested →
    c.mallocConfig.Fits i.call.requested
  mprotectOk : ∀ addr len prot, i.env.ans.mprotectOk addr len prot = true
  succeeds : ¬ i.call.Failed (σ.result c i).2

/-- The steps of the lives considered: `hu_init` runs once, and reports and
`hu_fini` after it. -/
def Accepts (c : HuConfig) (σ : Life) : LifeStep → Prop
  | .call i => σ.Serves c i
  | .store p i _ => ∃ n, (p, n) ∈ σ.session.client ∧ i < n
  | .init => σ.inited = false
  | .report _ => σ.inited = true
  | .fini _ => σ.inited = true

end Life

/-- The operation of the C heap, if the step is one of the program. -/
def LifeStep.op : LifeStep → Option (Op UInt8)
  | .call i => some (ClientInput.call ⟨i.call, i.env.ans⟩).op
  | .store p i v => some (.store p i v)
  | _ => none

/-! ## §2 Passing through -/

/-- The allocator knows no block. -/
structure MallocState.Blank (m : MallocState) : Prop where
  active : m.huActiveAllocs = ∅
  queue : m.huQuarantineAllocs = []
  addrs : m.huUserAddrs = ∅

/-- A configuration in which a request of `n` bytes is below the minimum. -/
def MallocConfig.passing (n : Nat) : MallocConfig where
  huOverflow := false
  huUseafterfree := false
  huMinsize := n + 1
  huPageSize := 0
  huQuarantineMaxSize := 0
  maxMapCount := 0

section Passing

variable {lc : LogConfig} {ans : SysAns} {s : HuState}

theorem huMalloc_passes (n : Nat) :
    huMalloc (.passing n) ans n s = s.libcMalloc ans n := by
  rcases huMalloc_cases (.passing n) ans n s with ⟨-, h⟩ | ⟨⟨-, -, hmin⟩, -⟩
  · exact h
  · exact absurd hmin (Nat.not_succ_le_self n)

theorem huFree_passes (c : MallocConfig) (hblank : s.mal.Blank)
    (hinit : s.mal.huMallocInited = true) (p : Nat) : huFree c lc ans p s = s.libcFree p := by
  have haddr : p ∉ s.mal.huUserAddrs := by simp [hblank.addrs]
  rcases huFree_cases c lc ans p s hinit with ⟨rfl, h⟩ | ⟨-, -, h⟩ | ⟨-, hmem, -⟩ | ⟨-, hmem, -⟩
  · rw [h]
    rfl
  · exact h
  · exact absurd hmem haddr
  · exact absurd hmem haddr

/-- Zero bytes are zero bytes, whether they were asked for or written. -/
theorem callocCleared_passes {m n : Nat} (hfit : m * n < 2 ^ 64) :
    (callocCleared (.passing (m * n)) ans (m * n) s).sys.mem = (s.libcCalloc ans m n).1.sys.mem ∧
      (huMalloc (.passing (m * n)) ans (m * n) s).2 = (s.libcCalloc ans m n).2 := by
  unfold callocCleared
  rw [huMalloc_passes]
  simp only [HuState.libcMalloc, HuState.libcCalloc, SysHeap.libcMalloc, SysHeap.libcCalloc,
    if_pos hfit, SysHeap.grant]
  by_cases hr : s.sys.arena.Admits ⟨ans.ptr, m * n, .malloc⟩
  · have hq : ans.ptr ≠ 0 := hr.base_ne_zero
    simp only [dif_pos hr, if_pos hq, and_true]
    funext a
    simp only [SysHeap.memset, SysHeap.granted]
    split <;> rfl
  · simp [dif_neg hr]

/-- **A call of the C library is one of the fenced allocator** whose request is
below the minimum, as far as the program sees. -/
theorem huCall_passes (hblank : s.mal.Blank) (hinit : s.mal.huMallocInited = true) (call : Call) :
    (huCall (.passing call.requested) lc ans call s).2 = (libcCall ans call s).2 ∧
      (huCall (.passing call.requested) lc ans call s).1.sys.mem =
        (libcCall ans call s).1.sys.mem := by
  cases call with
  | malloc size => simp [huCall, libcCall, Call.requested, huMalloc_passes]
  | free ptr => simp [huCall, libcCall, huFree_passes _ hblank hinit]
  | calloc nmemb size =>
    simp only [huCall, libcCall, Call.requested]
    rcases huCalloc_cases (.passing (nmemb * size)) ans nmemb size s hinit with ⟨-, h⟩ |
      ⟨hwrap, h⟩ | ⟨-, hfit, h⟩
    · rw [h]
      exact ⟨rfl, rfl⟩
    · have hrefused : s.libcCalloc ans nmemb size = (s, 0) := by
        rw [HuState.libcCalloc, SysHeap.libcCalloc, if_neg (by omega)]
      rw [h, hrefused]
      exact ⟨rfl, rfl⟩
    · rw [h]
      exact (callocCleared_passes hfit).symm
  | realloc ptr size =>
    simp only [huCall, libcCall, Call.requested]
    rcases huRealloc_cases (.passing size) lc ans ptr size s hinit with ⟨rfl, h⟩ |
      ⟨hp, rfl, h⟩ | ⟨-, -, b, hb, -⟩ | ⟨-, -, -, h⟩
    · rw [h, huMalloc_passes]
      exact ⟨rfl, rfl⟩
    · rw [h, huFree_passes _ hblank hinit]
      simp only [HuState.libcFree, HuState.libcRealloc, SysHeap.libcRealloc, if_neg hp,
        SysHeap.libcFree_mem]
      split <;> exact ⟨rfl, rfl⟩
    · rw [hblank.active] at hb
      cases hb
    · rw [h]
      exact ⟨rfl, rfl⟩

end Passing

/-! ## §3 Before `hu_init` -/

/-- The heap the program sees does not depend on the tables. -/
theorem AllocInv.congr {c : MallocConfig} {s s' : HuState} {L : ClientHeap}
    (h : AllocInv c ⟨s, L⟩) (hsys : s'.sys = s.sys)
    (hactive : s'.mal.huActiveAllocs = s.mal.huActiveAllocs)
    (hqueue : s'.mal.huQuarantineAllocs = s.mal.huQuarantineAllocs)
    (haddrs : s'.mal.huUserAddrs = s.mal.huUserAddrs)
    (hinited : s'.mal.huMallocInited = true) : AllocInv c ⟨s', L⟩ where
  inited := hinited
  heap := h.heap.congr hactive hqueue haddrs (by rw [hsys])
  pages := h.pages.congr hactive hqueue (by rw [hsys]) (by rw [hsys])

/-- What holds while the C library alone serves the program. -/
structure PlainInv (s : HuState) (L : ClientHeap) : Prop where
  blank : s.mal.Blank
  heap : ∀ c, HeapInv (.shaped c) s L
  pages : ∀ c, PageInv c s

/-- The allocator turned on, whatever its configuration. -/
def HuState.switchedOn (s : HuState) : HuState :=
  { s with mal := { s.mal with huMallocInited := true } }

namespace PlainInv

variable {s s' : HuState} {L : ClientHeap} {ans : SysAns} {call : Call}

theorem start : PlainInv Life.start.session.tool [] where
  blank := ⟨rfl, rfl, rfl⟩
  heap _ := HeapInv.of_empty rfl rfl
  pages c := AllocInv.pages (c := c) (AllocInv.init logInit) |>.congr rfl rfl rfl rfl

theorem congr (h : PlainInv s L) (hsys : s'.sys = s.sys) (hmal : s'.mal = s.mal) :
    PlainInv s' L where
  blank := hmal ▸ h.blank
  heap c := (h.heap c).congr (by rw [hmal]) (by rw [hmal]) (by rw [hmal]) (by rw [hsys])
  pages c := (h.pages c).congr (by rw [hmal]) (by rw [hmal]) (by rw [hsys]) (by rw [hsys])

/-- **The blocks from before are pass-through blocks of the fenced allocator.** -/
theorem alloc (h : PlainInv s L) (c : MallocConfig) (hsys : s'.sys = s.sys)
    (hblank : s'.mal.Blank) (hinited : s'.mal.huMallocInited = true) : AllocInv c ⟨s', L⟩ where
  inited := hinited
  heap := (h.heap c).congr (by rw [hblank.active, h.blank.active])
    (by rw [hblank.queue, h.blank.queue]) (by rw [hblank.addrs, h.blank.addrs]) (by rw [hsys])
  pages := (h.pages c).congr (by rw [hblank.active, h.blank.active])
    (by rw [hblank.queue, h.blank.queue]) (by rw [hsys]) (by rw [hsys])

theorem alloc_switchedOn (h : PlainInv s L) (c : MallocConfig) : AllocInv c ⟨s.switchedOn, L⟩ :=
  h.alloc c rfl ⟨h.blank.active, h.blank.queue, h.blank.addrs⟩ rfl

theorem argument_not_active (h : PlainInv s L) : call.argument ∉ s.mal.huActiveAllocs := by
  rw [h.blank.active]
  exact AList.notMem_empty _

theorem keeps (h : PlainInv s L) : s.keeps call = true := by
  rw [HuState.keeps, h.blank.active]
  rfl

/-- A call of the C library. -/
theorem call_pages (h : PlainInv s L) (hperm : call.Permitted L) (c : MallocConfig) :
    PageInv c (libcCall ans call s).1 := by
  have hlook := AList.lookup_eq_none.mpr (h.argument_not_active : call.argument ∉ _)
  have hpages := h.pages c
  cases call with
  | malloc size => exact hpages.libcMalloc_keeps ans size
  | calloc nmemb size => exact hpages.libcCalloc_keeps ans nmemb size
  | free ptr =>
    by_cases hp : ptr = 0
    · subst hp
      exact hpages
    · obtain ⟨n, -, hlive⟩ := (h.heap c).passed_through (hperm.resolve_left hp) hlook
      exact hpages.libcFree_keeps hlive
  | realloc ptr size =>
    by_cases hp : ptr = 0
    · subst hp
      exact hpages.libcMalloc_keeps ans size
    · obtain ⟨n, -, hlive⟩ := (h.heap c).passed_through (hperm.resolve_left hp) hlook
      exact hpages.libcRealloc_keeps hlive ans size

theorem after_call (h : PlainInv s L) (hperm : call.Permitted L) :
    PlainInv (libcCall ans call s).1 (call.after true (libcCall ans call s).2 L) where
  blank := by
    rw [libcCall_mal]
    exact h.blank
  heap c := (h.heap c).libcCall_keeps ans call hperm h.argument_not_active
  pages := h.call_pages hperm

/-- A call of the C library is a step of the C heap. -/
theorem call_step (h : PlainInv s L) (hperm : call.Permitted L)
    (hok : ∀ addr len prot, ans.mprotectOk addr len prot = true)
    (hsucceeds : ¬ call.Failed (libcCall ans call s).2) :
    CHeaps.Step 0 (s.blocks L) (ClientInput.call ⟨call, ans⟩).op (libcCall ans call s).2
      ((libcCall ans call s).1.blocks (call.after true (libcCall ans call s).2 L)) := by
  have hblank : s.switchedOn.mal.Blank := ⟨h.blank.active, h.blank.queue, h.blank.addrs⟩
  have hsame : (libcCall ans call s.switchedOn).2 = (libcCall ans call s).2 ∧
      (libcCall ans call s.switchedOn).1.sys = (libcCall ans call s).1.sys := by
    cases call <;> exact ⟨rfl, rfl⟩
  obtain ⟨hresult, hmem⟩ :
      (huCall (.passing call.requested) HuConfig.unset.logConfig ans call s.switchedOn).2 = _ ∧
        (huCall (.passing call.requested) HuConfig.unset.logConfig ans call
          s.switchedOn).1.sys.mem = _ := huCall_passes hblank rfl call
  rw [hsame.1] at hresult
  rw [hsame.2] at hmem
  have hserves : Session.Serves (.passing call.requested) HuConfig.unset.logConfig
      ⟨s.switchedOn, L⟩ ⟨call, ans⟩ :=
    ⟨hperm, fun _ hmin => absurd hmin (Nat.not_succ_le_self _), hok, by rw [hresult]; exact hsucceeds⟩
  have hstep := (h.alloc_switchedOn (.passing call.requested)).call_step hserves
  have hkeeps : s.switchedOn.keeps call = true := h.keeps
  simp only [Session.clientNext, Session.clientResult, Session.allocNext, Session.heap, hkeeps,
    hresult] at hstep
  have hblocks : ∀ H, (huCall (.passing call.requested) HuConfig.unset.logConfig ans call
      s.switchedOn).1.blocks H = (libcCall ans call s).1.blocks H :=
    fun H => HuState.blocks_eq fun p n _ i _ => congrFun hmem (p + i)
  rwa [hblocks] at hstep

end PlainInv

/-! ## §4 Whole lives -/

/-- The heap as the program sees it. -/
def Life.heap (σ : Life) : CHeaps.Heap UInt8 := σ.session.heap

/-- The pointer a step returns. -/
def Life.returned (c : HuConfig) (σ : Life) : LifeStep → Nat
  | .call i => (σ.result c i).2
  | _ => 0

/-- What the program may rely on at a step of its life. -/
structure Life.Refines (c : HuConfig) (σ : Life) (i : LifeStep) : Prop where
  step : ∀ op, i.op = some op → CHeaps.Step 0 σ.heap op (σ.returned c i) (σ.next c i).heap
  silent : i.op = none → (σ.next c i).heap = σ.heap
  separate : (σ.next c i).heap.Separate
  accessible : ∀ p n, (p, n) ∈ (σ.next c i).session.client → ∀ k < n,
    (σ.next c i).session.tool.sys.prot (p + k) = .readWrite

/-- What holds throughout a life: the one invariant or the other, by whether the
fenced allocator is on. -/
structure LifeInv (c : HuConfig) (σ : Life) : Prop where
  plain : σ.fences c = false → PlainInv σ.session.tool σ.session.client
  fenced : σ.fences c = true → AllocInv c.mallocConfig σ.session

namespace Life

variable {c : HuConfig} {σ : Life} {i : Input}

/-- The fenced allocator is on once `hu_init` has turned it on. -/
theorem fences_iff : σ.fences c = true ↔ σ.inited = true ∧ c.huEnableHumalloc = true := by
  unfold fences config
  cases σ.inited <;> simp [HuConfig.unset, HuConfig.huEnableHumalloc]

/-- The allocator half of a call. -/
def half (c : HuConfig) (σ : Life) (i : Input) : HuState × Nat :=
  allocHalf (σ.config c) i.env.ans i.call σ.session.tool

theorem half_plain (hoff : σ.fences c = false) :
    σ.half c i = libcCall i.env.ans i.call σ.session.tool := by
  have hoff : (σ.config c).huEnableHumalloc = false := hoff
  rw [half, allocHalf, hoff]
  rfl

theorem half_fenced (hon : σ.fences c = true) :
    σ.half c i = huCall c.mallocConfig c.logConfig i.env.ans i.call σ.session.tool := by
  obtain ⟨hinit, hhum⟩ := fences_iff.mp hon
  rw [half, allocHalf, config, if_pos hinit, if_pos hhum]

theorem result_eq : σ.result c i =
    (logHalf (σ.config c) i.env (σ.half c i).2 i.call (σ.half c i).1, (σ.half c i).2) :=
  tracked_eq ..

theorem result_snd : (σ.result c i).2 = (σ.half c i).2 := by rw [result_eq]

/-- The rest of a call is between the wrapper and the log. -/
theorem result_heap : (σ.result c i).1.sys = (σ.half c i).1.sys ∧
    (σ.result c i).1.mal = (σ.half c i).1.mal := by
  rw [result_eq]
  exact ⟨logHalf_sys .., logHalf_mal ..⟩

theorem heap_call : (σ.next c (.call i)).heap = (σ.half c i).1.blocks
    (i.call.after (σ.session.tool.keeps i.call) (σ.half c i).2 σ.session.client) := by
  rw [← result_snd]
  exact HuState.blocks_eq fun p n _ k _ => by rw [← result_heap.1]; rfl

/-- The fenced allocator is handed what it can serve. -/
theorem Serves.fenced (hs : σ.Serves c i) (hon : σ.fences c = true) :
    σ.session.Serves c.mallocConfig c.logConfig ⟨i.call, i.env.ans⟩ where
  permitted := hs.permitted
  fits := hs.fits hon
  mprotectOk := hs.mprotectOk
  succeeds := by
    rw [← half_fenced hon, ← result_snd]
    exact hs.succeeds

end Life

namespace LifeInv

variable {c : HuConfig} {σ : Life}

theorem start : LifeInv c .start := ⟨fun _ => PlainInv.start, fun h => by cases h⟩

/-- In either mode there are tables that make this a state of the fenced allocator. -/
theorem alloc (h : LifeInv c σ) : ∃ m : MallocState,
    AllocInv c.mallocConfig ⟨{ σ.session.tool with mal := m }, σ.session.client⟩ := by
  cases hmode : σ.fences c with
  | true => exact ⟨σ.session.tool.mal, h.fenced hmode⟩
  | false => exact ⟨_, (h.plain hmode).alloc_switchedOn _⟩

theorem separate (h : LifeInv c σ) : σ.heap.Separate := by
  obtain ⟨m, hinv⟩ := h.alloc
  exact hinv.separate

theorem accessible (h : LifeInv c σ) {p n k : Nat} (hp : (p, n) ∈ σ.session.client)
    (hk : k < n) : σ.session.tool.sys.prot (p + k) = .readWrite := by
  obtain ⟨m, hinv⟩ := h.alloc
  exact hinv.accessible hp hk

/-- A step that leaves the heap and the allocator alone, and turns nothing on. -/
theorem congr (h : LifeInv c σ) {s : HuState} (hsys : s.sys = σ.session.tool.sys)
    (hmal : s.mal = σ.session.tool.mal) : LifeInv c ⟨⟨s, σ.session.client⟩, σ.inited⟩ where
  plain hoff := (h.plain hoff).congr hsys hmal
  fenced hon :=
    have hinv := h.fenced hon
    hinv.congr hsys (congrArg (·.huActiveAllocs) hmal) (congrArg (·.huQuarantineAllocs) hmal)
      (congrArg (·.huUserAddrs) hmal) ((congrArg (·.huMallocInited) hmal).trans hinv.inited)

theorem store (h : LifeInv c σ) (a : Nat) (v : UInt8) :
    LifeInv c (σ.onTool fun s => { s with sys := s.sys.store a v }) where
  plain hoff :=
    have hinv := h.plain hoff
    { blank := hinv.blank
      heap := fun d => (hinv.heap d).congr rfl rfl rfl rfl
      pages := fun d => (hinv.pages d).congr rfl rfl rfl rfl }
  fenced hon := (h.fenced hon).store a v

/-- **`hu_init` may come at any time.** -/
theorem init (h : LifeInv c σ) (hearly : σ.inited = false) : LifeInv c (σ.next c .init) := by
  have hoff : σ.fences c = false := by
    rw [Life.fences, Life.config, hearly]
    rfl
  have hplain := h.plain hoff
  refine ⟨fun hoff' => hplain.congr rfl ?_, fun hon => ?_⟩
  · have hhum : c.huEnableHumalloc = false := hoff'
    show (if c.huEnableHumalloc then _ else _) = _
    rw [hhum]
    rfl
  · have hhum : c.huEnableHumalloc = true := hon
    have hmal : (HuState.huInit c σ.session.tool).mal = huMallocInit σ.session.tool.mal := by
      rw [HuState.huInit, if_pos hhum]
    exact hplain.alloc _ rfl (by rw [hmal]; exact ⟨rfl, rfl, rfl⟩) (by rw [hmal]; rfl)

/-- A call, with the C library or the fenced allocator behind the wrapper. -/
theorem call (h : LifeInv c σ) {i : Input} (hs : σ.Serves c i) :
    LifeInv c (σ.next c (.call i)) := by
  obtain ⟨hsys, hmal⟩ := σ.result_heap (c := c) (i := i)
  refine ⟨fun (hoff : σ.fences c = false) => ?_, fun (hon : σ.fences c = true) => ?_⟩
  · have hplain := h.plain hoff
    have hnext : PlainInv (libcCall i.env.ans _ _).1 _ := hplain.after_call hs.permitted
    rw [← Life.half_plain hoff, ← Life.result_snd, ← hplain.keeps] at hnext
    exact hnext.congr hsys hmal
  · have hnext : AllocInv _ (Session.allocNext _ c.logConfig _ _) :=
      (h.fenced hon).next (hs.fenced hon).handles
    simp only [Session.allocNext] at hnext
    rw [← Life.half_fenced hon, ← Life.result_snd] at hnext
    exact hnext.congr hsys (congrArg (·.huActiveAllocs) hmal)
      (congrArg (·.huQuarantineAllocs) hmal) (congrArg (·.huUserAddrs) hmal)
      ((congrArg (·.huMallocInited) hmal).trans hnext.inited)

theorem call_step (h : LifeInv c σ) {i : Input} (hs : σ.Serves c i) :
    CHeaps.Step 0 σ.heap (ClientInput.call ⟨i.call, i.env.ans⟩).op (σ.result c i).2
      (σ.next c (.call i)).heap := by
  rw [Life.heap_call, Life.result_snd]
  cases hmode : σ.fences c with
  | true =>
    rw [Life.half_fenced hmode]
    exact (h.fenced hmode).call_step (hs.fenced hmode)
  | false =>
    have hsucceeds := hs.succeeds
    rw [Life.result_snd, Life.half_plain hmode] at hsucceeds
    rw [Life.half_plain hmode, (h.plain hmode).keeps]
    exact (h.plain hmode).call_step hs.permitted hs.mprotectOk hsucceeds

/-- The invariant after any step. -/
theorem next (h : LifeInv c σ) {i : LifeStep} (hi : σ.Accepts c i) : LifeInv c (σ.next c i) := by
  cases i with
  | call i => exact h.call hi
  | store p i v => exact h.store (p + i) v
  | init => exact h.init hi
  | report phase =>
    obtain ⟨hsys, hmal⟩ := Process.huReport_heap c 0 ⟨σ.session.tool, fun _ => .fresh⟩ phase
    exact h.congr hsys hmal
  | fini phase =>
    obtain ⟨hsys, hmal⟩ := Process.huFini_heap c 0 ⟨σ.session.tool, fun _ => .fresh⟩ phase
    exact h.congr hsys hmal

theorem store_step (h : LifeInv c σ) {p i n : Nat} (v : UInt8) (hp : (p, n) ∈ σ.session.client)
    (hi : i < n) : CHeaps.Step 0 σ.heap (.store p i v) 0 (σ.next c (.store p i v)).heap := by
  obtain ⟨m, hinv⟩ := h.alloc
  have hstep : ∀ lc : LogConfig, CHeaps.Step 0 _ _ 0 (Session.clientNext _ lc _ _).heap :=
    fun lc => hinv.store_step v hp hi
  exact hstep c.logConfig

/-- A report, `hu_init` or `hu_fini` changes no byte. -/
theorem heap_silent {i : LifeStep} (hop : i.op = none) : (σ.next c i).heap = σ.heap := by
  have hsame : (σ.next c i).session.tool.sys = σ.session.tool.sys ∧
      (σ.next c i).session.client = σ.session.client := by
    cases i with
    | call i => cases hop
    | store p i v => cases hop
    | init => exact ⟨rfl, rfl⟩
    | report phase => exact ⟨(Process.huReport_heap c 0 _ phase).1, rfl⟩
    | fini phase => exact ⟨(Process.huFini_heap c 0 _ phase).1, rfl⟩
  rw [Life.heap, Session.heap, hsame.2]
  exact HuState.blocks_eq fun _ _ _ _ _ => by rw [hsame.1]

theorem refines (h : LifeInv c σ) {i : LifeStep} (hi : σ.Accepts c i) : σ.Refines c i := by
  have hnext := h.next hi
  refine ⟨fun op hop => ?_, heap_silent, hnext.separate, ?_⟩
  · cases i with
    | call i =>
      cases hop
      exact h.call_step hi
    | store p i v =>
      cases hop
      obtain ⟨n, hp, hin⟩ := hi
      exact h.store_step v hp hin
    | init => cases hop
    | report phase => cases hop
    | fini phase => cases hop
  · intro p n hp k hk
    exact hnext.accessible hp hk

end LifeInv

/-- **A process under the tool has a C heap from its first allocation to its last**:
along every life in which `hu_init` runs at some point, every call before it, after
it, during a report, at the beginning of `hu_fini` and after it is a step of the C
heap, whichever allocator serves it and whichever its argument came from; and
`hu_init`, a report and the phases of `hu_fini` leave the heap as it is. -/
theorem life_refines_heap (c : HuConfig) (is : List LifeStep)
    (hrun : Along (Life.next c) (Life.Accepts c) .start is) :
    Along (Life.next c) (Life.Refines c) .start is :=
  Along.mono (fun _ _ (h : LifeInv c _) hi => h.next hi) (fun _ _ h hi => h.refines hi) is _
    LifeInv.start hrun

/-- A block from before `hu_init` is resized by the fenced allocator, and a fenced
one is released after `hu_fini`. -/
theorem life_refines_heap_early_block :
    let c := HuConfig.tools true true true 8
    Along (Life.next c) (Life.Refines c) .start
      [.call ⟨.malloc 8, .answering 64⟩, .store 64 3 7, .init,
        .call ⟨.malloc 8, .answering 8192⟩, .call ⟨.realloc 64 24, .answering 128⟩,
        .report .disable, .call ⟨.free 128, .answering 0⟩, .report .enable,
        .fini .disable, .fini .restore, .call ⟨.free 12272, .answering 0⟩] := by
  intro c
  have hfits : ∀ n ∈ [8, 24], c.mallocConfig.Fits n := by decide
  refine life_refines_heap c _ ⟨?_, ?_, rfl, ?_, ?_, rfl, ?_, rfl, rfl, rfl, ?_, trivial⟩
  · exact ⟨.inl rfl, fun _ _ _ => hfits 8 (by decide), fun _ _ _ => rfl, by decide⟩
  · exact ⟨8, by decide, by decide⟩
  · exact ⟨.inl rfl, fun _ _ _ => hfits 8 (by decide), fun _ _ _ => rfl, by decide⟩
  · exact ⟨.inr (by decide), fun _ _ _ => hfits 24 (by decide), fun _ _ _ => rfl, by decide⟩
  · exact ⟨.inr (by decide), fun _ h _ => absurd h (by decide), fun _ _ _ => rfl, by decide⟩
  · exact ⟨.inr (by decide), fun _ h _ => absurd h (by decide), fun _ _ _ => rfl, by decide⟩

end Heapusage
