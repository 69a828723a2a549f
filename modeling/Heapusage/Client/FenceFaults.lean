/-
Heapusage.Client.FenceFaults — what the fault handler says about an access to
the fence page of a live block.

§1 Records  — the records of `allocations` are those of the live blocks
              (`FaultInv`).
§2 Windows  — the fence starts where the rounded size ends, the window of the
              search where the requested size ends: which windows hold an address
              of the fence page (`own_window`, `other_window`).
§3 Search   — the answer of the first loop for every iteration order.
§4 The fault is attributed to the block exactly if the address is in its window
   and in no other (`fence_fault_attributed_iff`).
-/
import Heapusage.Client.Attribution

namespace Heapusage

open Arenas Runs Tables Words

/-! ## §1 Records -/

/-- Every record of `allocations` names the pointer it is listed under. -/
def LogState.Listed (l : LogState) : Prop := ∀ k r, l.allocations.lookup k = some r → r.ptr = k

/-- The events of a call keep this. -/
theorem LogState.Listed.events {l : LogState} (h : l.Listed) (c : LogConfig) (e : CallEnv) (q : Nat)
    (call : Call) (hlog : l.loggingEnabled = true) : (logEvents c e q call l).Listed := by
  have hfree : (freeEvent c e call l).Listed := by
    intro k r hk
    cases hfr : call.frees with
    | none =>
      rw [freeEvent_of_none _ _ _ _ hfr] at hk
      exact h k r hk
    | some p =>
      rw [freeEvent_of_some _ _ _ _ hfr hlog, logFree_allocations] at hk
      exact h k r (lookup_erase_eq_some.mp hk).2
  intro k r hk
  unfold logEvents at hk
  cases hal : call.allocs with
  | none =>
    rw [allocEvent_of_none _ _ _ _ _ hal] at hk
    exact hfree k r hk
  | some n =>
    have hon : (freeEvent c e call l).loggingEnabled = true := by rw [freeEvent_enabled, hlog]
    rw [allocEvent_of_some _ _ _ _ _ hal hon, logMalloc_allocations] at hk
    split at hk
    · rcases lookup_insert_eq_some.mp hk with ⟨rfl, rfl⟩ | ⟨-, hold⟩
      · rfl
      · exact hfree k r hold
    · exact hfree k r hk

/-- The invariant of a clean run: that of the session, the layout of the fenced
blocks, and the records with their pointers. -/
structure FaultInv (c : HuConfig) (σ : Session) : Prop where
  session : SessionInv c σ
  heap : HeapInv (.shaped c.mallocConfig) σ.tool σ.client
  listed : σ.tool.log.Listed

namespace FaultInv

variable {c : HuConfig} {σ : Session} {i : Input}

theorem init (c : HuConfig) : FaultInv c (.init c) := by
  refine ⟨SessionInv.init c, HeapInv.of_empty (huInit_active c) (huInit_queue c), ?_⟩
  intro k r hk
  simp [Session.init, huInit, logEnable, logInit] at hk

theorem next (h : FaultInv c σ) (hi : σ.Clean c i) : FaultInv c (σ.next c i) := by
  refine ⟨h.session.next hi.sound, ?_, ?_⟩
  · exact h.session.next_heap_of h.heap hi.sound
      fun hon hpos hmin => (hi.fits hon hpos hmin).takes hpos
  · have hev := allocHalf_log c i.env.ans i.call σ.tool
    have hlog : (allocHalf c i.env.ans i.call σ.tool).1.log.loggingEnabled = true := by
      rw [hev.enabled, h.session.configured.logging]
    have hlisted : (allocHalf c i.env.ans i.call σ.tool).1.log.Listed := by
      intro k r hk
      rw [hev.allocations] at hk
      exact h.listed k r hk
    rw [Session.next_log]
    exact hlisted.events _ _ _ _ hlog

/-- A live block of an analysed size has a record. -/
theorem record (h : FaultInv c σ) {p n : Nat} (hp : (p, n) ∈ σ.client) (hpos : 0 < n)
    (hmin : c.huMinsize ≤ n) :
    ∃ r, σ.tool.log.allocations.lookup p = some r ∧ r.ptr = p ∧ r.size = n := by
  have hsize := (h.session.mirror p n).mpr ⟨hp, hpos, hmin⟩
  obtain ⟨r, hr, hrn⟩ := Option.map_eq_some_iff.mp hsize
  exact ⟨r, hr, h.listed p r hr, hrn⟩

/-- A record is that of a live block of an analysed size. -/
theorem recorded (h : FaultInv c σ) {r : HuAllocinfoT}
    (hr : r ∈ values σ.tool.log.allocations) :
    σ.tool.log.allocations.lookup r.ptr = some r ∧ (r.ptr, r.size) ∈ σ.client ∧ 0 < r.size ∧
      c.huMinsize ≤ r.size := by
  obtain ⟨k, hk⟩ := mem_values.mp hr
  have hkey := h.listed k r hk
  subst hkey
  refine ⟨hk, (h.session.mirror r.ptr r.size).mp ?_⟩
  rw [LogState.sizeAt, hk]
  rfl

end FaultInv

/-! ## §2 Windows -/

/-- An address of the fence page of `b`. -/
structure OnFence (c : HuConfig) (b : HuAllocInfo) (x : Nat) : Prop where
  lower : b.userPtr + ceilTo b.userSize huSizeMultiple ≤ x
  upper : x < b.userPtr + ceilTo b.userSize huSizeMultiple + c.huPageSize

/-- The numbers of a fenced block: the fence is the last page of its region, with
at least a page in front of it. -/
structure FenceLayout (c : HuConfig) (b : HuAllocInfo) : Prop where
  size_le : b.userSize ≤ ceilTo b.userSize huSizeMultiple
  start_le : b.sysPtr ≤ b.userPtr
  page_le : c.huPageSize ≤ b.sysPtr
  fence : b.sysPtr + c.huPageSize ≤ b.userPtr + ceilTo b.userSize huSizeMultiple
  stop : b.region.stop = b.userPtr + ceilTo b.userSize huSizeMultiple + c.huPageSize
  word : b.region.stop ≤ 2 ^ 64

theorem HuAllocInfo.Shaped.fenceLayout {c : HuConfig} {b : HuAllocInfo}
    (h : b.Shaped c.mallocConfig) (hov : c.huOverflow = true) (hpage : 0 < c.huPageSize)
    {A : Arena Origin (2 ^ 64)} (hlive : b.region ∈ A.blocks) : FenceLayout c b := by
  obtain ⟨hbase, hstop⟩ := A.inside _ hlive
  have hend : b.userPtr + ceilTo b.userSize huSizeMultiple + c.huPageSize = b.sysPtr + b.sysSize :=
    h.userPtr_fenced hov
  have hsize : b.sysSize =
      ceilTo (ceilTo b.userSize huSizeMultiple) c.huPageSize + c.huPageSize := by
    rw [h.sysSize_eq, MallocConfig.exactSysSize, MallocConfig.fence]
    exact congrArg _ (if_pos hov)
  have hround := le_ceilTo b.userSize huSizeMultiple
  have hfull : c.huPageSize ≤ ceilTo (ceilTo b.userSize huSizeMultiple) c.huPageSize := by
    have hpos : 0 < ceilTo (ceilTo b.userSize huSizeMultiple) c.huPageSize :=
      (h.userSize_pos.trans_le hround).trans_le (le_ceilTo _ _)
    exact Nat.le_of_dvd hpos (dvd_ceilTo _ _ hpage)
  have hregion : b.region.stop = b.sysPtr + b.sysSize := by
    show b.sysPtr + max b.sysSize 1 = b.sysPtr + b.sysSize
    omega
  refine ⟨hround, h.sysPtr_le, ?_, by omega, by omega, hstop⟩
  exact Nat.le_of_dvd hbase (Nat.dvd_of_mod_eq_zero h.sysPtr_aligned)

section Windows

variable {c : HuConfig} {b : HuAllocInfo} {x : Nat} {r : HuAllocinfoT}

theorem OnFence.page_pos (hx : OnFence c b x) : 0 < c.huPageSize := by
  obtain ⟨hlo, hhi⟩ := hx
  omega

/-- A record of the block ends where its requested size does. -/
theorem FenceLayout.record_stop (hb : FenceLayout c b) (hpage : 0 < c.huPageSize)
    (hptr : r.ptr = b.userPtr) (hsize : r.size = b.userSize) :
    r.stop = b.userPtr + b.userSize := by
  obtain ⟨hle, -, -, -, hstop, hword⟩ := hb
  rw [HuAllocinfoT.stop, hptr, hsize]
  exact add_eq (by omega)

/-- The offset of the report is that from the requested end. -/
theorem own_offset (hb : FenceLayout c b) (hx : OnFence c b x) (hptr : r.ptr = b.userPtr)
    (hsize : r.size = b.userSize) : sub 64 x r.stop = x - (b.userPtr + b.userSize) := by
  rw [hb.record_stop hx.page_pos hptr hsize]
  obtain ⟨hlo, hhi⟩ := hx
  obtain ⟨hle, -, -, -, hstop, hword⟩ := hb
  rw [sub_eq (by omega) (by omega)]

/-- The window of the block itself ends a page after its requested size, which
may be before the fence does, and is empty where that wraps. -/
theorem own_window (hb : FenceLayout c b) (hx : OnFence c b x) (hptr : r.ptr = b.userPtr)
    (hsize : r.size = b.userSize) : afterBlock c.huPageSize r x = true ↔
      x ≤ b.userPtr + b.userSize + c.huPageSize ∧
        b.userPtr + b.userSize + c.huPageSize < 2 ^ 64 := by
  have hend := hb.record_stop hx.page_pos hptr hsize
  obtain ⟨hlo, hhi⟩ := hx
  obtain ⟨hle, -, hpage, hfence, hstop, hword⟩ := hb
  simp only [afterBlock, hend, Bool.and_eq_true, decide_eq_true_eq]
  by_cases hfits : b.userPtr + b.userSize + c.huPageSize < 2 ^ 64
  · rw [add_eq hfits]
    omega
  · have hzero : add 64 (b.userPtr + b.userSize) c.huPageSize = 0 := by
      have hsum : b.userPtr + b.userSize + c.huPageSize = 2 ^ 64 := by omega
      rw [add, hsum, Nat.mod_self]
    rw [hzero]
    omega

/-- The windows of the other fenced blocks do not reach the fence page. -/
theorem fenced_window (hb : FenceLayout c b) (hx : OnFence c b x) {d : HuAllocInfo}
    (hd : FenceLayout c d) (hapart : b.region.Apart d.region) (hptr : r.ptr = d.userPtr)
    (hsize : r.size = d.userSize) : afterBlock c.huPageSize r x = false := by
  have hend := hd.record_stop hx.page_pos hptr hsize
  obtain ⟨hlo, hhi⟩ := hx
  obtain ⟨-, -, -, hfence, hstop, -⟩ := hb
  obtain ⟨hle, hstart, -, -, hstop', hword'⟩ := hd
  have hwindow : add 64 (d.userPtr + d.userSize) c.huPageSize ≤
      d.userPtr + d.userSize + c.huPageSize := Nat.mod_le _ _
  have hbases : b.region.base = b.sysPtr ∧ d.region.base = d.sysPtr := ⟨rfl, rfl⟩
  simp only [afterBlock, hend, Bool.and_eq_false_iff, decide_eq_false_iff_not]
  rcases hapart with hbelow | habove <;> omega

/-- Of a pass-through block only the end of the window can be on the fence page. -/
theorem plain_window (hb : FenceLayout c b) (hx : OnFence c b x) {d : Region}
    (hpos : 0 < d.size) (hword : d.stop ≤ 2 ^ 64) (hapart : b.region.Apart d)
    (hptr : r.ptr = d.base) (hsize : r.size = d.size) :
    afterBlock c.huPageSize r x = true ↔ d.base + d.size + c.huPageSize = x := by
  obtain ⟨hlo, hhi⟩ := hx
  obtain ⟨-, -, hpage, hfence, hstop, hregion⟩ := hb
  have hend : d.stop = d.base + d.size := by
    show d.base + max d.size 1 = d.base + d.size
    omega
  have hbase : b.region.base = b.sysPtr := rfl
  simp only [afterBlock, HuAllocinfoT.stop, hptr, hsize, Bool.and_eq_true, decide_eq_true_eq]
  rcases hapart with habove | hbelow
  · -- a block above the fence: its end may have wrapped to null
    by_cases hfits : d.base + d.size < 2 ^ 64
    · rw [add_eq hfits]
      omega
    · have hnull : add 64 d.base d.size = 0 := by
        have hsum : d.base + d.size = 2 ^ 64 := by omega
        rw [add, hsum, Nat.mod_self]
      rw [hnull, add_eq (by omega)]
      omega
  · rw [add_eq (by omega), add_eq (by omega)]
    omega

end Windows

/-! ## §3 Search -/

section Search

variable {page x : Nat}

theorem searchActive_afterAlloc {active : List HuAllocinfoT} {offset : Nat} {r : HuAllocinfoT}
    (h : searchActive page x active = some (.afterAlloc offset r)) :
    r ∈ active ∧ afterBlock page r x = true := by
  induction active with
  | nil => simp [searchActive] at h
  | cons a rest ih =>
    unfold searchActive at h
    cases ha : afterBlock page a x with
    | true =>
      simp only [ha, if_true, Option.some.injEq, Attribution.afterAlloc.injEq] at h
      obtain ⟨-, rfl⟩ := h
      exact ⟨List.mem_cons_self, ha⟩
    | false =>
      simp only [ha, Bool.false_eq_true, if_false] at h
      obtain ⟨hmem, hafter⟩ := ih h
      exact ⟨List.mem_cons_of_mem a hmem, hafter⟩

/-- Records whose windows do not hold the address are passed over. -/
theorem searchActive_of_unmasked {active : List HuAllocinfoT} {r : HuAllocinfoT}
    (hr : r ∈ active) (hafter : afterBlock page r x = true)
    (hothers : ∀ a ∈ active, a ≠ r → afterBlock page a x = false) :
    searchActive page x active = some (.afterAlloc (sub 64 x r.stop) r) := by
  induction active with
  | nil => exact absurd hr List.not_mem_nil
  | cons a rest ih =>
    unfold searchActive
    by_cases har : a = r
    · subst har
      simp [hafter]
    · have ha := hothers a List.mem_cons_self har
      have hrest := (List.mem_cons.mp hr).resolve_left (Ne.symm har)
      simp only [ha, Bool.false_eq_true, if_false]
      exact ih hrest fun d hd => hothers d (List.mem_cons_of_mem a hd)

/-- The second loop reports blocks as freed. -/
theorem searchFreed_ne_afterAlloc {freed : List HuAllocinfoT} {offset : Nat} {r : HuAllocinfoT} :
    searchFreed page x freed ≠ some (.afterAlloc offset r) := by
  induction freed with
  | nil => simp [searchFreed]
  | cons a rest ih =>
    unfold searchFreed
    split
    · simp
    · split
      · simp
      · exact ih

/-- The search reports the active record `r` in every iteration order exactly if
the window of `r` holds the address and no other one of `allocations` does. -/
theorem sigSearch_active_every_order {A F : List HuAllocinfoT} {r : HuAllocinfoT} :
    (∀ active freed, active.Perm A → freed.Perm F →
      sigSearch page x active freed = some (.afterAlloc (sub 64 x r.stop) r)) ↔
    (r ∈ A ∧ afterBlock page r x = true) ∧ ∀ a ∈ A, a ≠ r → afterBlock page a x = false := by
  have hfirst : ∀ {active freed : List HuAllocinfoT},
      sigSearch page x active freed = some (.afterAlloc (sub 64 x r.stop) r) →
      searchActive page x active = some (.afterAlloc (sub 64 x r.stop) r) := by
    intro active freed h
    unfold sigSearch at h
    cases hact : searchActive page x active with
    | none =>
      rw [hact] at h
      exact absurd h searchFreed_ne_afterAlloc
    | some found =>
      rw [hact] at h
      exact h
  constructor
  · intro h
    refine ⟨searchActive_afterAlloc (hfirst (h A F (.refl A) (.refl F))), fun a ha hne => ?_⟩
    -- an order in which `a` comes first
    have hsearch := hfirst (h (a :: A.erase a) F (List.perm_cons_erase ha).symm (.refl F))
    unfold searchActive at hsearch
    cases hafter : afterBlock page a x with
    | false => rfl
    | true =>
      simp only [hafter, if_true, Option.some.injEq, Attribution.afterAlloc.injEq] at hsearch
      exact absurd hsearch.2 hne
  · rintro ⟨⟨hr, hafter⟩, hothers⟩ active freed hA -
    unfold sigSearch
    rw [searchActive_of_unmasked (hA.mem_iff.mpr hr) hafter
      fun a ha => hothers a (hA.mem_iff.mp ha)]

end Search

/-! ## §4 Attribution -/

/-- A fault at `x` is found to be one after the block of `n` bytes at `p`: `x` is
within a page of the requested end, which is so for the whole fence page only if
the size needs no rounding; that page does not end at the end of the address
space; and no pass-through block that has a record ends just a page before `x`. -/
structure Session.FenceFaultFound (c : HuConfig) (σ : Session) (p n x : Nat) : Prop where
  near : x ≤ p + n + c.huPageSize
  word : p + n + c.huPageSize < 2 ^ 64
  clear : ∀ q m, (q, m) ∈ σ.client → 0 < m → c.huMinsize ≤ m →
    q ∉ σ.tool.mal.huActiveAllocs → q + m + c.huPageSize ≠ x

namespace FaultInv

variable {c : HuConfig} {σ : Session}

/-- Of the other records only one of a pass-through block has a window that reaches
the fence page, with its last address. -/
theorem other_window (h : FaultInv c σ) (hov : c.huOverflow = true) {b : HuAllocInfo}
    (hb : σ.tool.mal.huActiveAllocs.lookup b.userPtr = some b) {x : Nat} (hx : OnFence c b x)
    {r : HuAllocinfoT} (hr : r ∈ values σ.tool.log.allocations) (hne : r.ptr ≠ b.userPtr) :
    afterBlock c.huPageSize r x = true ↔
      r.ptr ∉ σ.tool.mal.huActiveAllocs ∧ r.ptr + r.size + c.huPageSize = x := by
  obtain ⟨-, hheld, hpos, hmin⟩ := h.recorded hr
  have hpage := hx.page_pos
  have hown := MallocState.active_owned hb
  have hlayout := (h.heap.owned_good b hown).fenceLayout hov hpage (h.heap.owned_live b hown)
  have hapart : ∀ d ∈ σ.tool.sys.arena.blocks, d.base ≠ b.sysPtr → b.region.Apart d := by
    intro d hd hbase
    exact σ.tool.sys.arena.apart.forall (h.heap.owned_live b hown) hd
      fun heq => hbase (congrArg Block.base heq).symm
  cases hact : σ.tool.mal.huActiveAllocs.lookup r.ptr with
  | some d =>
    have hmem := mem_of_lookup hact
    have hkey := h.heap.active_key _ d hact
    have hsize := h.heap.fenced_size hheld hact
    have hown' := MallocState.active_owned hact
    have hlayout' := (h.heap.owned_good d hown').fenceLayout hov hpage (h.heap.owned_live d hown')
    have hbase : d.region.base ≠ b.sysPtr := by
      intro heq
      have hdb : d = b := h.heap.owned_inj hown' hown heq
      exact hne (by rw [← hkey, hdb])
    have hout : afterBlock c.huPageSize r x = false :=
      fenced_window hlayout hx hlayout' (hapart _ (h.heap.owned_live d hown') hbase) hkey.symm
        hsize.symm
    simp [hout, hmem]
  | none =>
    have hmem := not_mem_of_lookup_none hact
    obtain ⟨m, hheld', hlive⟩ := h.heap.passed_through (List.mem_map_of_mem hheld) hact
    have hm : r.size = m := ClientHeap.size_unique h.heap.client_nodup hheld hheld'
    subst hm
    have hbase : r.ptr ≠ b.sysPtr := (h.heap.malloc_ne_owned hlive hown).symm
    have hwindow := plain_window hlayout hx hpos (σ.tool.sys.arena.inside _ hlive).2
      (hapart _ hlive hbase) rfl rfl
    rw [hwindow]
    simp [hmem]

/-- Records are told apart by their pointers. -/
theorem record_ne_iff (h : FaultInv c σ) {r a : HuAllocinfoT}
    (hr : r ∈ values σ.tool.log.allocations) (ha : a ∈ values σ.tool.log.allocations) :
    a ≠ r ↔ a.ptr ≠ r.ptr := by
  obtain ⟨hlook, -⟩ := h.recorded hr
  obtain ⟨hlook', -⟩ := h.recorded ha
  refine not_congr ⟨fun heq => heq ▸ rfl, fun heq => ?_⟩
  rw [heq, hlook] at hlook'
  exact (Option.some.inj hlook').symm

/-- No window of another record holds the address exactly if no pass-through block
that has a record ends a page before it. -/
theorem others_clear_iff (h : FaultInv c σ) (hov : c.huOverflow = true) {b : HuAllocInfo}
    (hb : σ.tool.mal.huActiveAllocs.lookup b.userPtr = some b) {x : Nat} (hx : OnFence c b x) :
    (∀ a ∈ values σ.tool.log.allocations, a.ptr ≠ b.userPtr →
      afterBlock c.huPageSize a x = false) ↔
    ∀ q m, (q, m) ∈ σ.client → 0 < m → c.huMinsize ≤ m → q ∉ σ.tool.mal.huActiveAllocs →
      q + m + c.huPageSize ≠ x := by
  constructor
  · intro hothers q m hq hpos hmin hact heq
    obtain ⟨a, ha, haq, ham⟩ := h.record hq hpos hmin
    have hmem := mem_values_of_lookup ha
    have hne : a.ptr ≠ b.userPtr := by
      rw [haq]
      rintro rfl
      exact hact (mem_of_lookup hb)
    have hwindow := (h.other_window hov hb hx hmem hne).mpr ⟨by rwa [haq], by rw [haq, ham, heq]⟩
    rw [hothers a hmem hne] at hwindow
    cases hwindow
  · intro hclear a ha hne
    rw [← Bool.not_eq_true, h.other_window hov hb hx ha hne]
    rintro ⟨hact, heq⟩
    obtain ⟨-, hheld, hpos, hmin⟩ := h.recorded ha
    exact hclear a.ptr a.size hheld hpos hmin hact heq

end FaultInv

/-- **A fault on the fence page of a live block is attributed to it, in every
iteration order, exactly if the condition holds**: every page size, every size,
every clean run. -/
theorem fence_fault_attributed_iff (c : HuConfig) (hov : c.huOverflow = true) (is : List Input)
    (hrun : Along (Session.next c) (Session.Clean c) (.init c) is) (p n : Nat) (b : HuAllocInfo)
    (hp : (p, n) ∈ (exec (Session.next c) (.init c) is).client)
    (hb : (exec (Session.next c) (.init c) is).tool.mal.huActiveAllocs.lookup p = some b) (x : Nat)
    (hlo : p + ceilTo n huSizeMultiple ≤ x)
    (hhi : x < p + ceilTo n huSizeMultiple + c.huPageSize) :
    let σ := exec (Session.next c) (.init c) is
    ∃ r, σ.tool.log.allocations.lookup p = some r ∧ r.ptr = p ∧ r.size = n ∧
      ((∀ active freed, active.Perm (values σ.tool.log.allocations) →
          freed.Perm (values σ.tool.log.freedAllocations) →
          sigSearch c.huPageSize x active freed = some (.afterAlloc (x - (p + n)) r)) ↔
        σ.FenceFaultFound c p n x) := by
  intro σ
  have h : FaultInv c σ := Along.invariant (fun σ _ (h : FaultInv c σ) hi => h.next hi) is _
    (FaultInv.init c) hrun
  have hown := MallocState.active_owned hb
  have hkey : b.userPtr = p := h.heap.active_key p b hb
  have hsize : b.userSize = n := h.heap.fenced_size hp hb
  have hgood := h.session.heap.owned_good b hown
  obtain ⟨r, hr, hptr, hrn⟩ := h.record hp (hsize ▸ hgood.2.1) (hsize ▸ hgood.2.2)
  refine ⟨r, hr, hptr, hrn, ?_⟩
  subst hkey hsize
  have hx : OnFence c b x := ⟨hlo, hhi⟩
  have hlayout := (h.heap.owned_good b hown).fenceLayout hov (by omega) (h.heap.owned_live b hown)
  have hrmem : r ∈ values σ.tool.log.allocations := mem_values_of_lookup hr
  have hothers : (∀ a ∈ values σ.tool.log.allocations, a ≠ r →
      afterBlock c.huPageSize a x = false) ↔ ∀ a ∈ values σ.tool.log.allocations,
      a.ptr ≠ b.userPtr → afterBlock c.huPageSize a x = false := by
    refine forall₂_congr fun a ha => ?_
    rw [h.record_ne_iff hrmem ha, hptr]
  rw [← own_offset hlayout hx hptr hrn, sigSearch_active_every_order,
    own_window hlayout hx hptr hrn, hothers, h.others_clear_iff hov hb hx]
  constructor
  · rintro ⟨⟨-, hnear, hword⟩, hclear⟩
    exact ⟨hnear, hword, hclear⟩
  · rintro ⟨hnear, hword, hclear⟩
    exact ⟨⟨hrmem, hnear, hword⟩, hclear⟩

/-- The first byte of the fence, after a block that needs rounding. -/
theorem fence_fault_attributed_first :
    let c := HuConfig.tools false true false 0
    let σ := exec (Session.next c) (.init c) [⟨.malloc 8, .answering 8192⟩]
    ∀ active freed, active.Perm (values σ.tool.log.allocations) →
      freed.Perm (values σ.tool.log.freedAllocations) →
      sigSearch c.huPageSize 12288 active freed =
        some (.afterAlloc 8 ⟨12272, 8, [1, 2], [], 1⟩) := by
  intro c σ
  have hclient : σ.client = [(12272, 8)] := by decide
  have hrecord : σ.tool.log.allocations.lookup 12272 = some ⟨12272, 8, [1, 2], [], 1⟩ := by decide
  obtain ⟨r, hr, -, -, hfound⟩ := fence_fault_attributed_iff c rfl
    [⟨.malloc 8, .answering 8192⟩] (by decide) 12272 8 ⟨12272, 8, 8192, 8192⟩ (by decide)
    (by decide) 12288 (by decide) (by decide)
  rw [hrecord] at hr
  cases hr
  refine hfound.mpr ⟨by decide, by decide, fun q m hq _ _ hact => ?_⟩
  rw [hclient] at hq
  cases List.mem_singleton.mp hq
  exact absurd (by decide) hact

/-- An address of the fence more than a page after the requested end: the search
finds no block. -/
theorem fence_fault_unattributed :
    let c := HuConfig.tools false true false 0
    let is : List Input := [⟨.malloc 8, .answering 8192⟩]
    let σ := exec (Session.next c) (.init c) is
    Along (Session.next c) (Session.Clean c) (.init c) is ∧
      (12272, 8) ∈ σ.client ∧ 12272 ∈ σ.tool.mal.huActiveAllocs ∧
      12272 + ceilTo 8 huSizeMultiple ≤ 16377 ∧
      16377 < 12272 + ceilTo 8 huSizeMultiple + c.huPageSize ∧
      sigSearch c.huPageSize 16377 (values σ.tool.log.allocations)
        (values σ.tool.log.freedAllocations) = none := by
  decide

end Heapusage
