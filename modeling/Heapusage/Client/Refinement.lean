/-
Heapusage.Client.Refinement — the fenced allocator refines the C heap.

The abstract heap of a state is the list of the program's blocks with the
bytes they hold (`Session.heap`). Every call of the allocator, and every store
of the program inside a block, is a step of `CHeaps.Step` between the abstract
heaps before and after, as long as the system grants the requests; and in every
state the blocks do not overlap and all their bytes are readable and writable
(`humalloc_refines_heap`).

§1 Blocks  — each block of the program lies in a region of its own, outside
             every fence.
§2 Frame   — no call changes a byte of a block that is not its argument.
§3 Steps   — what the system grants (`AllocInv.failed_iff`), and one lemma per
             operation.
§4 Runs.
-/
import Heapusage.Client.Conservation
import Heapusage.Lib.CHeap

namespace Heapusage

open Arenas CHeaps Runs Tables Words Zones

/-- The bytes of a block. -/
def HuState.bytes (s : HuState) (p n : Nat) : List UInt8 :=
  (List.range n).map fun i => s.sys.mem (p + i)

/-- The blocks `L` with the bytes they hold in `s`. -/
def HuState.blocks (s : HuState) (L : ClientHeap) : CHeaps.Heap UInt8 :=
  L.map fun b => (b.1, s.bytes b.1 b.2)

/-- The abstract heap. -/
def Session.heap (σ : Session) : CHeaps.Heap UInt8 := σ.tool.blocks σ.client

@[simp] theorem HuState.length_bytes (s : HuState) (p n : Nat) : (s.bytes p n).length = n := by
  simp [HuState.bytes]

theorem HuState.bytes_eq {s s' : HuState} {p q n : Nat}
    (h : ∀ i < n, s'.sys.mem (q + i) = s.sys.mem (p + i)) : s'.bytes q n = s.bytes p n :=
  List.map_congr_left fun i hi => h i (List.mem_range.mp hi)

theorem HuState.take_bytes (s : HuState) (p : Nat) {n k : Nat} (hk : k ≤ n) :
    (s.bytes p n).take k = s.bytes p k := by
  rw [HuState.bytes, ← List.map_take, List.take_range, Nat.min_eq_left hk]
  rfl

theorem HuState.blocks_eq {s s' : HuState} {L : ClientHeap}
    (h : ∀ p n, (p, n) ∈ L → ∀ i < n, s'.sys.mem (p + i) = s.sys.mem (p + i)) :
    s'.blocks L = s.blocks L :=
  List.map_congr_left fun b hb => Prod.ext rfl (HuState.bytes_eq (h b.1 b.2 hb))

theorem HuState.blocks_receive (s : HuState) (L : ClientHeap) (q n : Nat) :
    s.blocks (L.receive q n) = (s.blocks L).receive q (s.bytes q n) := by
  unfold ClientHeap.receive CHeaps.Heap.receive
  split <;> rfl

theorem HuState.blocks_drop (s : HuState) (L : ClientHeap) (p : Nat) :
    s.blocks (L.drop p) = (s.blocks L).drop p := by
  rw [HuState.blocks, HuState.blocks, CHeaps.Heap.drop, List.eraseP_map]
  rfl

theorem HuState.ptrs_blocks (s : HuState) (L : ClientHeap) : (s.blocks L).ptrs = L.ptrs := by
  simp [HuState.blocks, CHeaps.Heap.ptrs, ClientHeap.ptrs]

theorem HuState.mem_blocks (s : HuState) {L : ClientHeap} {p n : Nat} (hp : (p, n) ∈ L) :
    (p, s.bytes p n) ∈ s.blocks L := List.mem_map.mpr ⟨(p, n), hp, rfl⟩

/-! ## §1 Blocks -/

section Blocks

variable {c : MallocConfig} {σ : Session}

/-- The region a block lies in; a block of size zero still has its pointer there. -/
theorem AllocInv.block_region (h : AllocInv c σ) {p n : Nat} (hp : (p, n) ∈ σ.client) :
    ∃ r ∈ σ.tool.sys.arena.blocks, ∀ i < max n 1, r.Holds (p + i) := by
  rcases h.heap.client_held p n hp with ⟨b, hb, hsize⟩ | hlive
  · have hown := MallocState.active_owned hb
    have hshaped : b.Shaped c := h.heap.owned_good b hown
    have hpos := hshaped.userSize_pos
    have hkey := h.heap.active_key p b hb
    subst hkey hsize
    exact ⟨b.region, h.heap.owned_live b hown, fun i hi => hshaped.region_holds (by omega)⟩
  · exact ⟨_, hlive, fun i hi => ⟨Nat.le_add_right p i, Nat.add_lt_add_left hi p⟩⟩

/-- A region holds one block of the program. -/
theorem AllocInv.block_unique (h : AllocInv c σ) {p n q m : Nat} (hp : (p, n) ∈ σ.client)
    (hq : (q, m) ∈ σ.client) {r : Region} (hr : r ∈ σ.tool.sys.arena.blocks) (hrp : r.Holds p)
    (hrq : r.Holds q) : p = q := by
  have hlive := fun b hb => h.heap.owned_live b hb
  have harena := fun {d : Region} (hd : d ∈ σ.tool.sys.arena.blocks) {a : Nat}
    (hda : d.Holds a) (hra : r.Holds a) => σ.tool.sys.arena.eq_of_holds hd hr hda hra
  rcases h.heap.client_held p n hp with ⟨b, hb, -⟩ | hp'
  · have hbown := MallocState.active_owned hb
    have hbp := (Layout.shaped c).holds b (h.heap.owned_good b hbown)
    rw [h.heap.active_key p b hb] at hbp
    have hbr := harena (hlive b hbown) hbp hrp
    rcases h.heap.client_held q m hq with ⟨d, hd, -⟩ | hq'
    · have hdown := MallocState.active_owned hd
      have hdq := (Layout.shaped c).holds d (h.heap.owned_good d hdown)
      rw [h.heap.active_key q d hd] at hdq
      have hdr := harena (hlive d hdown) hdq hrq
      have hbd := h.heap.owned_inj hbown hdown (congrArg Block.base (hbr.trans hdr.symm))
      rw [← h.heap.active_key p b hb, ← h.heap.active_key q d hd, hbd]
    · have hqr := harena hq' (Block.holds_base _) hrq
      exact Origin.noConfusion (congrArg Block.tag (hbr.trans hqr.symm))
  · have hpr := harena hp' (Block.holds_base _) hrp
    rcases h.heap.client_held q m hq with ⟨d, hd, -⟩ | hq'
    · have hdown := MallocState.active_owned hd
      have hdq := (Layout.shaped c).holds d (h.heap.owned_good d hdown)
      rw [h.heap.active_key q d hd] at hdq
      have hdr := harena (hlive d hdown) hdq hrq
      exact Origin.noConfusion (congrArg Block.tag (hdr.trans hpr.symm))
    · have hqr := harena hq' (Block.holds_base _) hrq
      exact congrArg Block.base (hpr.trans hqr.symm)

/-- No address is in two blocks of the program. -/
theorem AllocInv.bytes_apart (h : AllocInv c σ) {p n q m : Nat} (hp : (p, n) ∈ σ.client)
    (hq : (q, m) ∈ σ.client) (hne : p ≠ q) {i j : Nat} (hi : i < max n 1) (hj : j < max m 1) :
    p + i ≠ q + j := by
  intro heq
  obtain ⟨r, hr, hri⟩ := h.block_region hp
  obtain ⟨d, hd, hdj⟩ := h.block_region hq
  have hrd := σ.tool.sys.arena.eq_of_holds hr hd (hri i hi) (heq ▸ hdj j hj)
  subst hrd
  exact hne (h.block_unique hp hq hr (hri 0 (by omega)) (hdj 0 (by omega)))

/-- A fenced block is accessible as far as its size rounded up reaches. -/
theorem AllocInv.fenced_accessible (h : AllocInv c σ) {p : Nat} {b : HuAllocInfo}
    (hb : σ.tool.mal.huActiveAllocs.lookup p = some b) {i : Nat}
    (hi : i < ceilTo b.userSize huSizeMultiple) : σ.tool.sys.prot (p + i) = .readWrite := by
  have hshaped : b.Shaped c := h.heap.owned_good b (MallocState.active_owned hb)
  have hkey := h.heap.active_key p b hb
  have hle := hshaped.rounded_le
  have hsys := hshaped.sysPtr_le
  have hzone : activeZone c b ∈ σ.tool.mal.zones c :=
    List.mem_append_left _ (List.mem_map.mpr ⟨b, mem_values_of_lookup hb, rfl⟩)
  have hcov : (activeZone c b).Covers (p + i) :=
    ⟨show b.sysPtr ≤ p + i by omega, show p + i < b.sysPtr + b.sysSize by omega⟩
  rw [h.pages.painted.inside _ hzone _ hcov]
  exact if_pos (by omega)

/-- Every byte of a block is readable and writable. -/
theorem AllocInv.accessible (h : AllocInv c σ) {p n : Nat} (hp : (p, n) ∈ σ.client) {i : Nat}
    (hi : i < n) : σ.tool.sys.prot (p + i) = .readWrite := by
  rcases h.heap.client_held p n hp with ⟨b, hb, hsize⟩ | hlive
  · have hround := le_ceilTo b.userSize huSizeMultiple
    exact h.fenced_accessible hb (by omega)
  · refine h.pages.painted.outside _ fun z hz hcov => ?_
    obtain ⟨b, hb, hbh⟩ := MallocState.zone_region hz hcov
    exact σ.tool.sys.arena.not_holds_of_tag_ne hlive (h.heap.owned_live b hb)
      Origin.noConfusion (Block.holds_of_lt_size _ hi) hbh

/-- The blocks of the abstract heap do not overlap. -/
theorem AllocInv.separate (h : AllocInv c σ) : σ.heap.Separate := by
  have hnd : σ.client.Pairwise fun b d => b.1 ≠ d.1 := List.pairwise_map.mp h.heap.client_nodup
  rw [CHeaps.Heap.Separate, Session.heap, HuState.blocks, List.pairwise_map]
  refine hnd.imp_of_mem ?_
  intro b d hb hd hne
  simp only [HuState.length_bytes]
  by_contra hover
  rw [not_or, Nat.not_le, Nat.not_le] at hover
  -- the larger of the two start addresses is in both
  rcases Nat.le_total b.1 d.1 with hle | hle
  · exact h.bytes_apart hb hd hne (i := d.1 - b.1) (j := 0) (by omega) (by omega) (by omega)
  · exact h.bytes_apart hb hd hne (i := 0) (j := b.1 - d.1) (by omega) (by omega) (by omega)

end Blocks

/-! ## §2 Frame -/

section Frame

variable {c : MallocConfig} {σ : Session}

/-- A byte of a block is outside every region that could be handed out now. -/
theorem AllocInv.not_admitted (h : AllocInv c σ) {x m : Nat} (hx : (x, m) ∈ σ.client) {i : Nat}
    (hi : i < m) {r : Region} (hr : σ.tool.sys.arena.Admits r) : ¬ r.Holds (x + i) := by
  obtain ⟨d, hd, hdi⟩ := h.block_region hx
  exact hr.not_holds hd (hdi i (by omega))

theorem AllocInv.huMalloc_frame (h : AllocInv c σ) (ans : SysAns) (n : Nat) {x m : Nat}
    (hx : (x, m) ∈ σ.client) {i : Nat} (hi : i < m) :
    (huMalloc c ans n σ.tool).1.sys.mem (x + i) = σ.tool.sys.mem (x + i) := by
  obtain ⟨d, hd, hdi⟩ := h.block_region hx
  exact huMalloc_mem c ans n σ.tool hd (hdi i (by omega))

/-- The bytes of a new block are no bytes of an old one. -/
theorem AllocInv.huMalloc_apart (h : AllocInv c σ) (ans : SysAns) (n : Nat)
    (hfit : 0 < n → c.huMinsize ≤ n → c.Fits n) (hq : (huMalloc c ans n σ.tool).2 ≠ 0) {x m : Nat}
    (hx : (x, m) ∈ σ.client) {i : Nat} (hi : i < m) {j : Nat} (hj : j < n) :
    x + i ≠ (huMalloc c ans n σ.tool).2 + j := by
  obtain ⟨r, hr, hrj⟩ := huMalloc_range c ans n σ.tool hfit hq
  intro heq
  exact h.not_admitted hx hi hr (heq ▸ hrj j hj)

theorem AllocInv.huCalloc_frame (h : AllocInv c σ) (ans : SysAns) (count size : Nat)
    (hfit : 0 < count * size → c.huMinsize ≤ count * size → c.Fits (count * size)) {x m : Nat}
    (hx : (x, m) ∈ σ.client) {i : Nat} (hi : i < m) :
    (huCalloc c ans count size σ.tool).1.sys.mem (x + i) = σ.tool.sys.mem (x + i) := by
  rcases huCalloc_cases c ans count size σ.tool h.inited with ⟨-, heq⟩ | ⟨-, heq⟩ | ⟨-, -, heq⟩
  · rw [heq, HuState.libcCalloc]
    rcases SysHeap.libcCalloc_cases ans σ.tool.sys count size with hc | ⟨-, hr, hc⟩
    · rw [hc]
    · obtain ⟨d, hd, hdi⟩ := h.block_region hx
      rw [hc]
      exact SysHeap.granted_mem_of_held _ hr hd (hdi i (by omega))
  · rw [heq]
  · rw [heq, callocCleared_mem_of_out, h.huMalloc_frame ans (count * size) hx hi]
    exact fun hq j hj => h.huMalloc_apart ans _ hfit hq hx hi hj

theorem AllocInv.reallocCopied_frame (h : AllocInv c σ) (ans : SysAns) (b : HuAllocInfo) (n : Nat)
    (hfit : 0 < n → c.huMinsize ≤ n → c.Fits n) {x m : Nat} (hx : (x, m) ∈ σ.client) {i : Nat}
    (hi : i < m) :
    (reallocCopied c ans b n σ.tool).sys.mem (x + i) = σ.tool.sys.mem (x + i) := by
  have hmal := h.huMalloc_frame ans n hx hi
  unfold reallocCopied
  simp only
  split
  · rename_i hq
    simp only
    rw [SysHeap.memcpy_mem_of_out, hmal]
    exact fun j hj => h.huMalloc_apart ans n hfit hq hx hi (by omega)
  · exact hmal

/-- The region of a pass-through block, as the C library finds it. -/
theorem AllocInv.find_passed (h : AllocInv c σ) {p n : Nat} (hp : (p, n) ∈ σ.client)
    (hact : σ.tool.mal.huActiveAllocs.lookup p = none) :
    p ≠ 0 ∧ σ.tool.sys.arena.find p = some ⟨p, n, .malloc⟩ := by
  rcases h.heap.client_held p n hp with ⟨b, hb, -⟩ | hlive
  · rw [hact] at hb
    exact absurd hb (by simp)
  · refine ⟨?_, σ.tool.sys.arena.find_eq_some hlive⟩
    rintro rfl
    exact h.heap.null_not_held (List.mem_map.mpr ⟨_, hp, rfl⟩)

theorem AllocInv.huRealloc_frame (h : AllocInv c σ) (lc : LogConfig) (ans : SysAns) (p n : Nat)
    (hperm : p = 0 ∨ p ∈ σ.client.ptrs) (hfit : 0 < n → c.huMinsize ≤ n → c.Fits n) {x m : Nat}
    (hx : (x, m) ∈ σ.client) (hne : x ≠ p) {i : Nat} (hi : i < m) :
    (huRealloc c lc ans p n σ.tool).1.sys.mem (x + i) = σ.tool.sys.mem (x + i) := by
  rcases huRealloc_cases c lc ans p n σ.tool h.inited with ⟨-, heq⟩ | ⟨-, -, heq⟩ |
    ⟨-, -, b, -, heq⟩ | ⟨hp, -, hb, heq⟩
  · rw [heq]
    exact h.huMalloc_frame ans n hx hi
  · rw [heq, huFree_mem]
  · rw [heq, huFree_mem]
    exact h.reallocCopied_frame ans b n hfit hx hi
  · obtain ⟨⟨p', k⟩, hpk, rfl⟩ := List.mem_map.mp (hperm.resolve_left hp)
    obtain ⟨-, hfind⟩ := h.find_passed hpk hb
    obtain ⟨d, hd, hdi⟩ := h.block_region hx
    have hbase : d.base ≠ p' := by
      rintro rfl
      exact hne (h.block_unique hx hpk hd (hdi 0 (by omega)) d.holds_base)
    rw [heq]
    exact SysHeap.libcRealloc_mem_of_held ans σ.tool.sys hp hfind n hd hbase (hdi i (by omega))

end Frame

/-! ## §3 Steps -/

/-- What the program does: a call, or a store inside a block. -/
inductive ClientInput where
  | call (i : AllocInput)
  | store (p i : Nat) (v : UInt8)

/-- The operation of the C heap. -/
def ClientInput.op : ClientInput → Op UInt8
  | .call ⟨.malloc size, _⟩ => .malloc size
  | .call ⟨.free ptr, _⟩ => .free ptr
  | .call ⟨.calloc nmemb size, _⟩ => .calloc nmemb size
  | .call ⟨.realloc ptr size, _⟩ => .realloc ptr size
  | .store p i v => .store p i v

def Session.clientNext (c : MallocConfig) (lc : LogConfig) (σ : Session) : ClientInput → Session
  | .call i => σ.allocNext c lc i
  | .store p i v => ⟨{ σ.tool with sys := σ.tool.sys.store (p + i) v }, σ.client⟩

def Session.clientResult (c : MallocConfig) (lc : LogConfig) (σ : Session) : ClientInput → Nat
  | .call i => (huCall c lc i.ans i.call σ.tool).2
  | .store _ _ _ => 0

/-- The region a block of `n` bytes takes can be had at the address on offer. -/
def HuState.RoomFor (c : MallocConfig) (ans : SysAns) (n : Nat) (s : HuState) : Prop :=
  if n ≠ 0 ∧ c.huMinsize ≤ n then
    ans.ptr % c.huPageSize = 0 ∧ s.sys.arena.Admits (fencedRegion c ans n)
  else s.sys.arena.Admits ⟨ans.ptr, n, .malloc⟩

instance (c : MallocConfig) (ans : SysAns) (n : Nat) (s : HuState) :
    Decidable (s.RoomFor c ans n) :=
  inferInstanceAs (Decidable (if n ≠ 0 ∧ c.huMinsize ≤ n then
    ans.ptr % c.huPageSize = 0 ∧ s.sys.arena.Admits (fencedRegion c ans n)
    else s.sys.arena.Admits ⟨ans.ptr, n, .malloc⟩))

/-- The system grants what a call of the fenced allocator asks it for. -/
def Call.Supplied (c : MallocConfig) (ans : SysAns) (s : HuState) : Call → Prop
  | .malloc size => s.RoomFor c ans size
  | .free _ => True
  | .calloc nmemb size => nmemb * size < 2 ^ 64 ∧ s.RoomFor c ans (nmemb * size)
  | .realloc ptr size =>
      if ptr = 0 ∨ ptr ∈ s.mal.huActiveAllocs then s.RoomFor c ans size
      else (s.sys.arena.release ptr).Admits ⟨ans.ptr, size, .malloc⟩

instance (c : MallocConfig) (ans : SysAns) (s : HuState) : DecidablePred (Call.Supplied c ans s)
  | .malloc size => inferInstanceAs (Decidable (s.RoomFor c ans size))
  | .free _ => inferInstanceAs (Decidable True)
  | .calloc _ _ => inferInstanceAs (Decidable (_ ∧ _))
  | .realloc ptr size => inferInstanceAs (Decidable (if ptr = 0 ∨ ptr ∈ s.mal.huActiveAllocs
      then s.RoomFor c ans size
      else (s.sys.arena.release ptr).Admits ⟨ans.ptr, size, .malloc⟩))

/-- A call on null or a live block that the system grants, with `mprotect` succeeding
and a fenced size that does not wrap. -/
structure Session.Supplies (c : MallocConfig) (σ : Session) (i : AllocInput) : Prop where
  permitted : i.call.Permitted σ.client
  fits : 0 < i.call.requested → c.huMinsize ≤ i.call.requested → c.Fits i.call.requested
  mprotectOk : ∀ addr len prot, i.ans.mprotectOk addr len prot = true
  supplied : i.call.requested ≠ 0 → i.call.Supplied c i.ans σ.tool

/-- Such a call as its caller sees it: it succeeds. -/
structure Session.Serves (c : MallocConfig) (lc : LogConfig) (σ : Session) (i : AllocInput) :
    Prop where
  permitted : i.call.Permitted σ.client
  fits : 0 < i.call.requested → c.huMinsize ≤ i.call.requested → c.Fits i.call.requested
  mprotectOk : ∀ addr len prot, i.ans.mprotectOk addr len prot = true
  succeeds : ¬ i.call.Failed (huCall c lc i.ans i.call σ.tool).2

/-- The steps of the runs considered: granted calls, and stores inside live blocks. -/
def Session.Provides (c : MallocConfig) (σ : Session) : ClientInput → Prop
  | .call i => σ.Supplies c i
  | .store p i _ => ∃ n, (p, n) ∈ σ.client ∧ i < n

/-- The same steps, with calls that succeed. -/
def Session.Accepts (c : MallocConfig) (lc : LogConfig) (σ : Session) : ClientInput → Prop
  | .call i => σ.Serves c lc i
  | .store p i _ => ∃ n, (p, n) ∈ σ.client ∧ i < n

section Steps

variable {c : MallocConfig} {lc : LogConfig} {σ : Session}

theorem Session.Serves.handles {i : AllocInput} (h : σ.Serves c lc i) : σ.Handles c i :=
  ⟨h.permitted.handled, h.fits, h.mprotectOk⟩

/-- `hu_malloc` returns null only if there is no room. -/
theorem huMalloc_eq_zero_iff (ans : SysAns) {n : Nat} {s : HuState}
    (hinit : s.mal.huMallocInited = true)
    (hfits : n ≠ 0 → c.huMinsize ≤ n → c.Fits n) :
    (huMalloc c ans n s).2 = 0 ↔ ¬ s.RoomFor c ans n := by
  rw [huMalloc_result, HuState.RoomFor]
  by_cases hfenced : n ≠ 0 ∧ c.huMinsize ≤ n
  · simp only [hinit, hfenced, ne_eq, not_false_eq_true, and_self, if_true]
    by_cases hroom : ans.ptr % c.huPageSize = 0 ∧ s.sys.arena.Admits (fencedRegion c ans n)
    · simp only [hroom, and_self, if_true, not_true_eq_false, iff_false]
      have hplaced := (hfits hfenced.1 hfenced.2).placed
      exact hroom.2.ne_zero_of_holds (allocInfoAt_holds hplaced hroom.2.2.1)
    · simp only [hroom, if_false, not_false_eq_true]
  · simp only [hinit, true_and, hfenced, if_false]
    by_cases hroom : s.sys.arena.Admits ⟨ans.ptr, n, .malloc⟩
    · simp only [hroom, if_true, not_true_eq_false, iff_false]
      exact hroom.base_ne_zero
    · simp only [hroom, if_false, not_false_eq_true]

/-- **A call of the fenced allocator fails exactly if the system does not supply it.** -/
theorem AllocInv.failed_iff (h : AllocInv c σ) {i : AllocInput}
    (hperm : i.call.Permitted σ.client)
    (hfits : 0 < i.call.requested → c.huMinsize ≤ i.call.requested → c.Fits i.call.requested) :
    i.call.Failed (huCall c lc i.ans i.call σ.tool).2 ↔
      i.call.requested ≠ 0 ∧ ¬ i.call.Supplied c i.ans σ.tool := by
  refine and_congr_right fun hreq => ?_
  have hmalloc := huMalloc_eq_zero_iff i.ans h.inited
    fun hne => hfits (Nat.pos_of_ne_zero hne)
  obtain ⟨call, ans⟩ := i
  cases call with
  | malloc size => exact hmalloc
  | free ptr => exact absurd rfl hreq
  | calloc nmemb size =>
    simp only [huCall, huCalloc_result c ans nmemb size σ.tool h.inited hreq, Call.Supplied]
    split
    · rename_i hfit
      simp only [hfit, true_and]
      exact hmalloc
    · rename_i hfit
      simp only [hfit, false_and, not_false_eq_true]
  | realloc ptr size =>
    simp only [huCall, Call.Supplied]
    rcases huRealloc_cases c lc ans ptr size σ.tool h.inited with ⟨hp, heq⟩ | ⟨-, hn, -⟩ |
      ⟨-, -, b, hb, heq⟩ | ⟨hp, hn, hb, heq⟩
    · rw [heq, if_pos (.inl hp)]
      exact hmalloc
    · exact absurd hn hreq
    · rw [heq, if_pos (.inr (mem_of_lookup hb))]
      exact hmalloc
    · have hact : ptr ∉ σ.tool.mal.huActiveAllocs := AList.lookup_eq_none.mp hb
      obtain ⟨m, -, hlive⟩ := h.heap.passed_through (hperm.resolve_left hp) hb
      have hresult := SysHeap.libcRealloc_result ans σ.tool.sys hp
        (σ.tool.sys.arena.find_eq_some hlive) hn
      rw [heq, if_neg (not_or.mpr ⟨hp, hact⟩)]
      show (σ.tool.sys.libcRealloc ans ptr size).2 = 0 ↔ _
      rw [hresult]
      split
      · rename_i hadm
        simp only [hadm, not_true_eq_false, iff_false]
        exact hadm.base_ne_zero
      · rename_i hadm
        simp only [hadm, not_false_eq_true]

/-- What the system supplies succeeds, and nothing else does. -/
theorem AllocInv.supplies_iff_serves (h : AllocInv c σ) {i : AllocInput} :
    σ.Supplies c i ↔ σ.Serves c lc i := by
  constructor
  · intro hs
    refine ⟨hs.permitted, hs.fits, hs.mprotectOk, fun hf => ?_⟩
    obtain ⟨hreq, hnot⟩ := (h.failed_iff hs.permitted hs.fits).mp hf
    exact hnot (hs.supplied hreq)
  · intro hs
    refine ⟨hs.permitted, hs.fits, hs.mprotectOk, fun hreq => ?_⟩
    by_contra hnot
    exact hs.succeeds ((h.failed_iff hs.permitted hs.fits).mpr ⟨hreq, hnot⟩)

theorem AllocInv.provides_iff_accepts (h : AllocInv c σ) {i : ClientInput} :
    σ.Provides c i ↔ σ.Accepts c lc i := by
  cases i with
  | call i => exact h.supplies_iff_serves
  | store p i v => exact Iff.rfl

/-- No call changes a byte of a block that is not its argument. -/
theorem AllocInv.huCall_frame (h : AllocInv c σ) {i : AllocInput} (hs : σ.Serves c lc i)
    {x m : Nat} (hx : (x, m) ∈ σ.client) (hne : x ≠ i.call.argument) {k : Nat} (hk : k < m) :
    (huCall c lc i.ans i.call σ.tool).1.sys.mem (x + k) = σ.tool.sys.mem (x + k) := by
  have hfit := hs.fits
  have hperm := hs.permitted
  cases hcall : i.call with
  | malloc size => exact h.huMalloc_frame i.ans size hx hk
  | free ptr =>
    rw [huCall]
    simp only
    rw [huFree_mem]
  | calloc nmemb size =>
    rw [hcall] at hfit
    exact h.huCalloc_frame i.ans nmemb size hfit hx hk
  | realloc ptr size =>
    rw [hcall] at hfit hperm hne
    exact h.huRealloc_frame lc i.ans ptr size hperm hfit hx hne hk

/-- The abstract heap after a call: the argument is gone, the result is there
with what its bytes now hold, and every other block is as it was. -/
theorem AllocInv.heap_allocNext (h : AllocInv c σ) {i : AllocInput} (hs : σ.Serves c lc i) :
    (σ.allocNext c lc i).heap = (σ.heap.drop i.call.argument).receive
      (huCall c lc i.ans i.call σ.tool).2
      ((huCall c lc i.ans i.call σ.tool).1.bytes (huCall c lc i.ans i.call σ.tool).2
        i.call.requested) := by
  have hclient := Call.after_eq (σ.tool.keeps i.call) h.heap.null_not_held
    (fun _ => huCall_free i.ans i.call σ.tool c lc) hs.succeeds
  have hframe : (huCall c lc i.ans i.call σ.tool).1.blocks (σ.client.drop i.call.argument) =
      σ.tool.blocks (σ.client.drop i.call.argument) := by
    refine HuState.blocks_eq fun x m hx k hk => ?_
    obtain ⟨hmem, hne⟩ := (ClientHeap.mem_drop h.heap.client_nodup).mp hx
    exact h.huCall_frame hs hmem hne hk
  rw [Session.heap, Session.heap, Session.allocNext]
  simp only
  rw [hclient, HuState.blocks_receive, hframe, HuState.blocks_drop]

/-- The result of a call is a block the program does not hold. -/
theorem AllocInv.fresh_result (h : AllocInv c σ) {i : AllocInput} (hs : σ.Serves c lc i) :
    (σ.heap.drop i.call.argument).Fresh (huCall c lc i.ans i.call σ.tool).2
      i.call.requested where
  new := by
    intro hq
    have hnd : (σ.allocNext c lc i).client.ptrs.Nodup := (h.next hs.handles).heap.client_nodup
    simp only [Session.allocNext] at hnd
    rw [Call.after_eq _ h.heap.null_not_held (fun _ => huCall_free i.ans i.call σ.tool c lc)
      hs.succeeds] at hnd
    rw [Session.heap, ← HuState.blocks_drop, HuState.ptrs_blocks]
    exact ClientHeap.receive_fresh hnd hq
  some := fun hreq hq => hs.succeeds ⟨hreq, hq⟩

/-- A call that gives up no block leaves the list as it is. -/
theorem AllocInv.heap_drop_null (h : AllocInv c σ) : σ.heap.drop 0 = σ.heap := by
  rw [Session.heap, ← HuState.blocks_drop, ClientHeap.drop_of_not_mem h.heap.null_not_held]

/-- `hu_calloc` hands out zero bytes. -/
theorem AllocInv.calloc_bytes (h : AllocInv c σ) (ans : SysAns) (count size : Nat)
    (hq : (huCalloc c ans count size σ.tool).2 ≠ 0) :
    (huCalloc c ans count size σ.tool).1.bytes (huCalloc c ans count size σ.tool).2
      (count * size) = List.replicate (count * size) 0 := by
  have hzero : ∀ j < count * size, (huCalloc c ans count size σ.tool).1.sys.mem
      ((huCalloc c ans count size σ.tool).2 + j) = 0 := by
    intro j hj
    rcases huCalloc_cases c ans count size σ.tool h.inited with ⟨-, heq⟩ | ⟨-, heq⟩ |
      ⟨-, -, heq⟩
    · rw [heq] at hq ⊢
      exact SysHeap.libcCalloc_mem_zero ans σ.tool.sys hq hj
    · rw [heq] at hq
      exact absurd rfl hq
    · rw [heq] at hq ⊢
      exact callocCleared_mem_zero c ans (count * size) σ.tool hq hj
  rw [HuState.bytes, List.eq_replicate_iff]
  refine ⟨by simp, fun v hv => ?_⟩
  obtain ⟨j, hj, rfl⟩ := List.mem_map.mp hv
  exact hzero j (List.mem_range.mp hj)

/-- `hu_realloc` copies the first bytes of a fenced block, as many as were
requested for it. -/
theorem AllocInv.copied_mem (h : AllocInv c σ) {ans : SysAns} {p n : Nat} {b : HuAllocInfo}
    (hb : σ.tool.mal.huActiveAllocs.lookup p = some b) (hq : (huMalloc c ans n σ.tool).2 ≠ 0)
    {i : Nat} (hi : i < n) (hold : i < b.userSize) :
    (reallocCopied c ans b n σ.tool).sys.mem ((huMalloc c ans n σ.tool).2 + i) =
      σ.tool.sys.mem (p + i) := by
  have hown := MallocState.active_owned hb
  have hshaped : b.Shaped c := h.heap.owned_good b hown
  rw [reallocCopied]
  simp only [if_pos hq]
  rw [SysHeap.memcpy_mem_of_lt _ (by omega), ← h.heap.active_key p b hb]
  exact huMalloc_mem c ans n σ.tool (h.heap.owned_live b hown) (hshaped.region_holds hold)

/-- `hu_realloc` keeps the bytes both sizes have, whichever allocator the old
and the new block belong to. -/
theorem AllocInv.realloc_bytes (h : AllocInv c σ) (ans : SysAns) {p old n : Nat}
    (hp : (p, old) ∈ σ.client) (hp0 : p ≠ 0) (hn : n ≠ 0)
    (hq : (huRealloc c lc ans p n σ.tool).2 ≠ 0) {j : Nat} (hold : j < old) (hnew : j < n) :
    (huRealloc c lc ans p n σ.tool).1.sys.mem ((huRealloc c lc ans p n σ.tool).2 + j) =
      σ.tool.sys.mem (p + j) := by
  rcases huRealloc_cases c lc ans p n σ.tool h.inited with ⟨h0, -⟩ | ⟨-, h0, -⟩ |
    ⟨-, -, b, hb, heq⟩ | ⟨-, -, hb, heq⟩
  · exact absurd h0 hp0
  · exact absurd h0 hn
  · have hsize := h.heap.fenced_size hp hb
    rw [heq] at hq ⊢
    simp only at hq ⊢
    rw [huFree_mem]
    exact h.copied_mem hb hq hnew (by omega)
  · obtain ⟨-, hfind⟩ := h.find_passed hp hb
    rw [heq] at hq ⊢
    exact SysHeap.libcRealloc_mem_prefix ans σ.tool.sys hp0 hfind hq hold hnew

/-- A call is a step of the C heap. -/
theorem AllocInv.call_step (h : AllocInv c σ) {i : AllocInput} (hs : σ.Serves c lc i) :
    Step 0 σ.heap (ClientInput.call i).op (σ.clientResult c lc (.call i))
      (σ.clientNext c lc (.call i)).heap := by
  have hheap := h.heap_allocNext hs
  have hfresh := h.fresh_result hs
  have hperm := hs.permitted
  have hlen := HuState.length_bytes (huCall c lc i.ans i.call σ.tool).1
    (huCall c lc i.ans i.call σ.tool).2 i.call.requested
  rw [Session.clientNext, Session.clientResult, hheap]
  obtain ⟨call, ans⟩ := i
  cases call with
  | malloc size =>
    simp only [Call.argument, h.heap_drop_null] at hfresh ⊢
    exact Step.malloc hfresh hlen
  | free ptr => exact Step.free
  | calloc nmemb size =>
    simp only [Call.argument, h.heap_drop_null] at hfresh ⊢
    have hstep : Step (0 : UInt8) σ.heap (.calloc nmemb size) _ _ := Step.calloc hfresh
    by_cases hq : (huCall c lc ans (.calloc nmemb size) σ.tool).2 = 0
    · simp only [CHeaps.Heap.receive, hq, if_true] at hstep ⊢
      exact hstep
    · have hbytes := h.calloc_bytes ans nmemb size hq
      simp only [huCall, Call.requested] at hstep ⊢
      rw [hbytes]
      exact hstep
  | realloc ptr size =>
    simp only [Call.argument, Call.requested] at hfresh hlen ⊢
    by_cases hp : ptr = 0
    · subst hp
      simp only [h.heap_drop_null] at hfresh ⊢
      exact Step.create hfresh hlen
    by_cases hn : size = 0
    · subst hn
      have hzero : (huCall c lc ans (.realloc ptr 0) σ.tool).2 = 0 := by
        simp [huCall, huRealloc, h.inited, hp]
      rw [hzero]
      exact Step.release hp
    · obtain ⟨⟨p, old⟩, hold, rfl⟩ := List.mem_map.mp (hperm.resolve_left hp)
      have hq : (huCall c lc ans (.realloc p size) σ.tool).2 ≠ 0 := hfresh.some hn
      refine Step.resize hp hn (HuState.mem_blocks σ.tool hold) hfresh hlen ?_
      rw [HuState.length_bytes, HuState.take_bytes _ _ (Nat.min_le_right old size),
        HuState.take_bytes _ _ (Nat.min_le_left old size)]
      exact HuState.bytes_eq fun j hj => h.realloc_bytes ans hold hp hn hq (by omega) (by omega)

/-- A store inside a block is a step of the C heap. -/
theorem AllocInv.store_step (h : AllocInv c σ) {p i n : Nat} (v : UInt8) (hp : (p, n) ∈ σ.client)
    (hi : i < n) :
    Step 0 σ.heap (ClientInput.store p i v).op 0 (σ.clientNext c lc (.store p i v)).heap := by
  have hheap : (σ.clientNext c lc (.store p i v)).heap = σ.heap.store p i v := by
    rw [Session.heap, Session.heap, HuState.blocks, HuState.blocks, CHeaps.Heap.store,
      List.map_map]
    refine List.map_congr_left fun b hb => ?_
    simp only [Session.clientNext, Function.comp]
    by_cases hbp : b.1 = p
    · rw [if_pos hbp]
      have hbn : b.2 = n := by
        refine ClientHeap.size_unique h.heap.client_nodup (p := p) ?_ hp
        rw [← hbp]
        exact hb
      refine Prod.ext rfl (List.ext_getElem (by simp) fun k hk1 hk2 => ?_)
      simp only [HuState.bytes, List.getElem_map, List.getElem_range, SysHeap.store,
        List.getElem_set, hbp]
      by_cases hki : i = k
      · rw [if_pos (by omega), if_pos hki]
      · rw [if_neg (by omega), if_neg hki]
    · rw [if_neg hbp]
      refine Prod.ext rfl (HuState.bytes_eq fun k hk => ?_)
      have hne := h.bytes_apart hb hp hbp (i := k) (j := i) (by omega) (by omega)
      exact if_neg hne
  rw [hheap]
  refine Step.store (HuState.mem_blocks σ.tool hp) ?_
  rw [HuState.length_bytes]
  exact hi

/-- A store changes nothing the invariant is about. -/
theorem AllocInv.store (h : AllocInv c σ) (a : Nat) (v : UInt8) :
    AllocInv c ⟨{ σ.tool with sys := σ.tool.sys.store a v }, σ.client⟩ :=
  ⟨h.inited, h.heap.congr rfl rfl rfl rfl, h.pages.congr rfl rfl rfl rfl⟩

/-- The invariant after any accepted step. -/
theorem AllocInv.clientNext (h : AllocInv c σ) {i : ClientInput} (hi : σ.Accepts c lc i) :
    AllocInv c (σ.clientNext c lc i) := by
  cases i with
  | call i => exact h.next hi.handles
  | store p i v => exact h.store (p + i) v

end Steps

/-! ## §4 Runs -/

/-- What the program may rely on at a step: it is one of the C heap and keeps
the contents of every block it is not about; afterwards the blocks the program
holds are separate and all their bytes accessible. -/
structure Session.Refines (c : MallocConfig) (lc : LogConfig) (σ : Session) (i : ClientInput) :
    Prop where
  step : Step 0 σ.heap i.op (σ.clientResult c lc i) (σ.clientNext c lc i).heap
  frame : ∀ x bs, (x, bs) ∈ σ.heap → x ≠ i.op.target → (x, bs) ∈ (σ.clientNext c lc i).heap
  separate : (σ.clientNext c lc i).heap.Separate
  accessible : ∀ p n, (p, n) ∈ (σ.clientNext c lc i).client → ∀ k < n,
    (σ.clientNext c lc i).tool.sys.prot (p + k) = .readWrite

theorem AllocInv.refines {c : MallocConfig} {lc : LogConfig} {σ : Session} (h : AllocInv c σ)
    {i : ClientInput} (hi : σ.Accepts c lc i) : σ.Refines c lc i := by
  have hnext : AllocInv c (σ.clientNext c lc i) := h.clientNext hi
  have hstep : Step 0 σ.heap i.op (σ.clientResult c lc i) (σ.clientNext c lc i).heap := by
    cases i with
    | call i => exact h.call_step hi
    | store p i v =>
      obtain ⟨n, hp, hin⟩ := hi
      exact h.store_step v hp hin
  refine ⟨hstep, ?_, hnext.separate, ?_⟩
  · intro x bs hx hne
    exact hstep.frame hx hne
  · intro p n hp k hk
    exact hnext.accessible hp hk

/-- **The fenced allocator refines the C heap**: along every run of calls on null or
live pointers that the system grants, interleaved with stores inside live blocks, for
every configuration. -/
theorem humalloc_refines_heap (c : MallocConfig) (lc : LogConfig) (l : LogState)
    (is : List ClientInput)
    (hrun : Along (Session.clientNext c lc) (Session.Provides c) (.allocInit l) is) :
    Along (Session.clientNext c lc) (Session.Refines c lc) (.allocInit l) is :=
  Along.mono (fun σ _ (h : AllocInv c σ) hi => h.clientNext (h.provides_iff_accepts.mp hi))
    (fun _ _ h hi => h.refines (h.provides_iff_accepts.mp hi)) is _ (AllocInv.init l) hrun

/-- A fenced block is written to and shrunk to a size that is passed through. -/
theorem humalloc_refines_heap_shrunk :
    let c := (HuConfig.tools true true true 8).mallocConfig
    let lc := (HuConfig.tools true true true 8).logConfig
    Along (Session.clientNext c lc) (Session.Refines c lc) (.allocInit logInit)
      [.call ⟨.malloc 8, (CallEnv.answering 8192).ans⟩, .store 12272 3 7,
        .call ⟨.realloc 12272 4, (CallEnv.answering 64).ans⟩] := by
  intro c lc
  refine humalloc_refines_heap c lc logInit _ ⟨?_, ?_, ?_, trivial⟩
  · exact ⟨.inl rfl, fun _ _ => by decide, fun _ _ _ => rfl, fun _ => by decide⟩
  · exact ⟨8, by decide, by decide⟩
  · exact ⟨.inr (by decide), fun _ _ => by decide, fun _ _ _ => rfl, fun _ => by decide⟩

end Heapusage
