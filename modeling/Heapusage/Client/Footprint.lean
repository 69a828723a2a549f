/-
Heapusage.Client.Footprint — what the fenced allocator takes from the system.

`Client.Conservation` follows the regions of `posix_memalign` in the history of
calls. Here they are compared with the heap of the C library itself: of these regions
none is there but those of the program's fenced blocks and of the quarantine, so the
tool loses none, and how much memory it takes is known from the blocks of the program
and the limit of the quarantine (`fenced_footprint`).

§1 Closure   — what every function of the C library keeps, every call of the
               allocator keeps (`SysHeap.Kept.huCall`).
§2 Balance   — the history against the heap.
§3 Footprint.
-/
import Heapusage.Client.Accesses

namespace Heapusage

open Arenas Backlogs Runs Tables Words

/-! ## §1 Closure -/

/-- A property of the C library's heap that each of its functions keeps. -/
structure SysHeap.Kept (P : SysHeap → Prop) : Prop where
  libcMalloc : ∀ ans n h, P h → P (h.libcMalloc ans n).1
  libcCalloc : ∀ ans m n h, P h → P (h.libcCalloc ans m n).1
  libcFree : ∀ p h, P h → P (h.libcFree p)
  libcRealloc : ∀ ans p n h, P h → P (h.libcRealloc ans p n).1
  posixMemalign : ∀ ans align n h, P h → P (h.posixMemalign ans align n).1
  mprotect : ∀ ans addr len prot h, P h → P (h.mprotect ans addr len prot).1
  memset : ∀ p v n h, P h → P (h.memset p v n)
  memcpy : ∀ dst src n h, P h → P (h.memcpy dst src n)

namespace SysHeap.Kept

variable {P : SysHeap → Prop} (k : SysHeap.Kept P) (c : MallocConfig) (lc : LogConfig)
  (ans : SysAns) {s : HuState}
include k

theorem huMalloc (n : Nat) (h : P s.sys) : P (huMalloc c ans n s).1.sys := by
  unfold Heapusage.huMalloc
  split
  · exact k.libcMalloc ans n _ h
  · split
    · exact k.libcMalloc ans n _ h
    · split
      · exact k.libcMalloc ans n _ h
      · have hr := k.posixMemalign ans c.huPageSize (huCalcSysSize c (huCalcUserSize n)) _ h
        simp only
        split
        · exact hr
        · show P (if c.huOverflow then _ else _ : HuState).sys
          split
          · exact k.mprotect ans _ _ _ _ hr
          · exact hr

theorem evictLoop (q : List HuAllocInfo) : ∀ {s : HuState}, P s.sys →
    P (evictLoop c lc ans q s).sys := by
  induction q with
  | nil => exact fun h => h
  | cons info rest ih =>
    intro s h
    unfold Heapusage.evictLoop
    split
    · exact ih (k.libcFree info.sysPtr _ (k.mprotect ans info.sysPtr info.sysSize _ _ h))
    · exact h

theorem huFree (p : Nat) (h : P s.sys) : P (huFree c lc ans p s).sys := by
  unfold Heapusage.huFree
  split
  · exact k.libcFree p _ h
  · split
    · exact h
    · split
      · exact k.libcFree p _ h
      · cases huGetAllocinfo p s.mal with
        | none => exact h
        | some info =>
          simp only
          split
          · exact k.evictLoop c lc ans _ (k.mprotect ans info.sysPtr info.sysSize _ _ h)
          · exact k.libcFree info.sysPtr _ (k.mprotect ans info.sysPtr info.sysSize _ _ h)

theorem huCalloc (m n : Nat) (h : P s.sys) : P (huCalloc c ans m n s).1.sys := by
  unfold Heapusage.huCalloc
  split
  · exact k.libcCalloc ans m n _ h
  · split
    · exact k.libcCalloc ans m n _ h
    · simp only
      split
      · exact h
      · split
        · exact k.memset _ 0 _ _ (k.huMalloc c ans _ h)
        · exact k.huMalloc c ans _ h

theorem huRealloc (p n : Nat) (h : P s.sys) : P (huRealloc c lc ans p n s).1.sys := by
  unfold Heapusage.huRealloc
  split
  · exact k.libcRealloc ans p n _ h
  · split
    · exact k.huMalloc c ans n h
    · split
      · exact k.huFree c lc ans p h
      · cases huGetAllocinfo p s.mal with
        | none => exact k.libcRealloc ans p n _ h
        | some info =>
          refine k.huFree c lc ans p ?_
          split
          · exact k.memcpy _ _ _ _ (k.huMalloc c ans n h)
          · exact k.huMalloc c ans n h

theorem huCall (call : Call) (h : P s.sys) : P (huCall c lc ans call s).1.sys := by
  cases call with
  | malloc size => exact k.huMalloc c ans size h
  | free ptr => exact k.huFree c lc ans ptr h
  | calloc nmemb size => exact k.huCalloc c ans nmemb size h
  | realloc ptr size => exact k.huRealloc c lc ans ptr size h

end SysHeap.Kept

/-! ## §2 Balance -/

namespace SysHeap

/-- The regions of `posix_memalign` that are there. -/
def held (h : SysHeap) : List Region := h.arena.blocks.filter fun r => r.tag = .memalign

/-- What was obtained is there or was given back. -/
def Balanced (h : SysHeap) : Prop := h.memaligned.Perm (h.held ++ h.returned)

/-- A heap that was used as the contract has it is balanced. -/
def Settled (h : SysHeap) : Prop := (∀ call ∈ h.calls, call.Proper) → h.Balanced

variable {h h' : SysHeap} {ans : SysAns}

theorem Settled.congr (hs : h.Settled) (hblocks : h'.held = h.held) (hcalls : h'.calls = h.calls) :
    h'.Settled := by
  intro hproper
  rw [hcalls] at hproper
  have hbalanced := hs hproper
  unfold Balanced memaligned returned at hbalanced ⊢
  rw [hblocks, hcalls]
  exact hbalanced

theorem held_granted {r : Region} {fill : Nat → UInt8} (hr : h.arena.Admits r) :
    (h.granted r fill hr).held = if r.tag = .memalign then r :: h.held else h.held := by
  unfold held
  by_cases htag : r.tag = .memalign <;> simp [granted, Arena.add, htag]

theorem Settled.libcMalloc (hs : h.Settled) (n : Nat) : (h.libcMalloc ans n).1.Settled := by
  rcases libcMalloc_cases ans h n with heq | ⟨hr, heq⟩ <;> rw [heq]
  · exact hs
  · exact hs.congr (by rw [held_granted]; rfl) rfl

theorem Settled.libcCalloc (hs : h.Settled) (m n : Nat) : (h.libcCalloc ans m n).1.Settled := by
  rcases libcCalloc_cases ans h m n with heq | ⟨-, hr, heq⟩ <;> rw [heq]
  · exact hs
  · exact hs.congr (by rw [held_granted]; rfl) rfl

theorem Settled.posixMemalign (hs : h.Settled) (align n : Nat) :
    (h.posixMemalign ans align n).1.Settled := by
  rcases posixMemalign_cases ans h align n with heq | ⟨-, hr, heq⟩ <;> rw [heq]
  · exact hs
  · intro hproper
    have hbalanced := hs fun call hcall => hproper call (List.mem_cons_of_mem _ hcall)
    have hheld : (h.granted _ ans.fill hr).held = ⟨ans.ptr, n, .memalign⟩ :: h.held :=
      (held_granted hr).trans (if_pos rfl)
    show (_ :: h.memaligned).Perm ((h.granted _ ans.fill hr).held ++ h.returned)
    rw [hheld]
    exact hbalanced.cons _

theorem held_release {p : Nat} {r : Region} (hr : h.arena.find p = some r) :
    h.held.Perm ((if r.tag = .memalign then [r] else []) ++
      (h.arena.release p).blocks.filter fun r => r.tag = .memalign) := by
  have hperm := (Arena.release_perm hr).filter fun r => r.tag = .memalign
  refine hperm.trans ?_
  by_cases htag : r.tag = .memalign <;> simp [htag]

theorem Settled.libcFree (hs : h.Settled) (p : Nat) : (h.libcFree p).Settled := by
  by_cases hp : p = 0
  · rw [hp]
    exact hs
  · rw [libcFree_of_ne h hp]
    intro hproper
    have hbalanced := hs fun call hcall => hproper call (List.mem_cons_of_mem _ hcall)
    obtain ⟨r, hr, -, -⟩ := hproper _ List.mem_cons_self
    have hrelease := held_release hr
    unfold Balanced memaligned returned held at *
    simp only [hr, List.filterMap_cons]
    refine hbalanced.trans ((hrelease.append_right _).trans ?_)
    split
    · exact List.perm_middle.symm
    · exact List.Perm.refl _

/-- Nothing is said of a `realloc` but that it came. -/
theorem Settled.recorded (hs : h.Settled) (p n : Nat) : (h.recorded p n).Settled :=
  fun hproper => hs fun call hcall => hproper call (List.mem_cons_of_mem _ hcall)

/-- A `realloc` takes back a block of `malloc`. -/
theorem Settled.vacated (hs : h.Settled) (p n : Nat) : (h.vacated p n).Settled := by
  intro hproper
  have hbalanced := hs fun call hcall => hproper call (List.mem_cons_of_mem _ hcall)
  obtain ⟨r, hr, -, htag⟩ := hproper _ List.mem_cons_self
  have hrelease := held_release hr
  rw [htag] at hrelease
  exact hbalanced.trans (hrelease.append_right _)

theorem Settled.libcRealloc (hs : h.Settled) (p n : Nat) :
    (h.libcRealloc ans p n).1.Settled := by
  by_cases hp : p = 0
  · rw [hp]
    exact hs.libcMalloc n
  · cases hr : h.arena.find p with
    | none =>
      rw [libcRealloc_undefined ans h hp hr]
      exact hs.recorded p n
    | some r =>
      rcases libcRealloc_cases ans h hp hr n with ⟨-, heq⟩ | ⟨-, heq⟩ | ⟨-, hn, heq⟩ <;> rw [heq]
      · exact hs.vacated p n
      · exact hs.recorded p n
      · exact (hs.vacated p n).congr (by rw [held_granted]; rfl) rfl

/-- Every function keeps it. -/
theorem settled_kept : Kept Settled where
  libcMalloc _ n _ hs := hs.libcMalloc n
  libcCalloc _ m n _ hs := hs.libcCalloc m n
  libcFree p _ hs := hs.libcFree p
  libcRealloc _ p n _ hs := hs.libcRealloc p n
  posixMemalign _ align n _ hs := hs.posixMemalign align n
  mprotect ans addr len prot h hs := by
    unfold SysHeap.mprotect
    split
    · exact hs.congr rfl rfl
    · exact hs
  memset _ _ _ _ hs := hs.congr rfl rfl
  memcpy _ _ _ _ hs := hs.congr rfl rfl

end SysHeap

/-! ## §3 Footprint -/

namespace AccessInv

variable {c : MallocConfig} {lc : LogConfig} {τ : QueueTrace}

/-- The regions that are there are those of the two tables. -/
theorem held (h : AccessInv c τ) (hsettled : τ.session.tool.sys.Settled) :
    τ.session.tool.sys.held.Perm τ.session.tool.mal.regions := by
  have hbalanced := hsettled h.alloc.pages.proper
  exact (List.perm_append_right_iff _).mp (hbalanced.symm.trans h.alloc.pages.ledger)

/-- The fenced blocks of the program. -/
theorem active_perm (h : AccessInv c τ) :
    ((values τ.session.tool.mal.huActiveAllocs).map fun b => (b.userPtr, b.userSize)).Perm
      (τ.session.client.filter fun b => b.1 ∈ τ.session.tool.mal.huActiveAllocs) := by
  have hkeys := values_map_key h.alloc.heap.active_key
  have hnd : ((values τ.session.tool.mal.huActiveAllocs).map
      fun b => (b.userPtr, b.userSize)).Nodup := by
    refine List.Nodup.of_map Prod.fst ?_
    rw [List.map_map]
    exact hkeys ▸ τ.session.tool.mal.huActiveAllocs.keys_nodup
  have hclient : τ.session.client.Nodup := h.alloc.heap.client_nodup.of_map _
  refine (List.perm_ext_iff_of_nodup hnd (hclient.filter _)).mpr fun ⟨p, n⟩ => ?_
  simp only [List.mem_map, List.mem_filter, decide_eq_true_eq, mem_values]
  constructor
  · rintro ⟨b, ⟨k, hk⟩, heq⟩
    cases heq
    rw [h.alloc.heap.active_key k b hk]
    exact ⟨h.mine k b hk, mem_of_lookup hk⟩
  · rintro ⟨hp, hact⟩
    obtain ⟨b, hb⟩ := exists_lookup hact
    refine ⟨b, ⟨p, hb⟩, ?_⟩
    rw [h.alloc.heap.active_key p b hb, h.alloc.heap.fenced_size hp hb]

/-- Their regions have the sizes of `hu_calc_sys_size`. -/
theorem active_bytes (h : AccessInv c τ) :
    ((values τ.session.tool.mal.huActiveAllocs).map HuAllocInfo.sysSize).sum =
      ((τ.session.client.filter fun b => b.1 ∈ τ.session.tool.mal.huActiveAllocs).map
        fun b => c.exactSysSize b.2).sum := by
  rw [← (h.active_perm.map fun b => c.exactSysSize b.2).sum_eq, List.map_map]
  refine congrArg List.sum (List.map_congr_left fun b hb => ?_)
  exact (h.alloc.heap.owned_good b (List.mem_append_left _ hb)).sysSize_eq

end AccessInv

/-- A fenced block takes two pages more than its size, less than that at most. -/
theorem MallocConfig.exactSysSize_le {c : MallocConfig} (hpage : 0 < c.huPageSize) (n : Nat) :
    c.exactSysSize n < n + 16 + 2 * c.huPageSize := by
  have hround := ceilTo_lt n (show 0 < huSizeMultiple by decide)
  have hpages := ceilTo_lt (ceilTo n huSizeMultiple) hpage
  have hfence : c.fence ≤ c.huPageSize := by
    unfold MallocConfig.fence
    split
    · exact Nat.le_refl _
    · exact Nat.zero_le _
  have hsixteen : huSizeMultiple = 16 := rfl
  unfold MallocConfig.exactSysSize
  omega

/-- After every run the heap of the C library is settled. -/
theorem SysHeap.settled_exec (c : MallocConfig) (lc : LogConfig) (l : LogState)
    (is : List AllocInput) :
    (exec (QueueTrace.next c lc) (.init l) is).session.tool.sys.Settled := by
  have hstep : ∀ (τ : QueueTrace) (i : AllocInput), τ.session.tool.sys.Settled → True →
      (τ.next c lc i).session.tool.sys.Settled :=
    fun τ i h _ => SysHeap.settled_kept.huCall c lc i.ans i.call h
  refine Along.invariant hstep is _ ?_ (along_of_forall is (fun _ _ => trivial) _)
  exact fun _ => List.Perm.refl []

/-- The quarantine stays within its limit. -/
theorem MallocConfig.total_kept_le (c : MallocConfig) (given : List HuAllocInfo) :
    total HuAllocInfo.sysSize (c.kept given) ≤ c.huQuarantineMaxSize := by
  unfold MallocConfig.kept
  split
  · exact total_trim_le _
  · exact Nat.zero_le _

/-- **The memory the fenced allocator takes**: in every state of every run the regions of
`posix_memalign` that are there are those of the two tables, so none is lost; they are of
the sizes of the program's fenced blocks, rounded up and with a fence, and of the blocks
in the quarantine; so they exceed what the program holds by less than two pages and 16
bytes for each block, and by the limit of the quarantine. -/
theorem fenced_footprint (c : MallocConfig) (lc : LogConfig) (l : LogState)
    (hpage : 0 < c.huPageSize) (is : List AllocInput)
    (hrun : Along (QueueTrace.next c lc) (QueueTrace.Protects c) (.init l) is) :
    let τ := exec (QueueTrace.next c lc) (.init l) is
    let s := τ.session.tool
    let fenced := τ.session.client.filter fun b => b.1 ∈ s.mal.huActiveAllocs
    s.sys.held.Perm (s.mal.owned.map HuAllocInfo.region) ∧
      (s.sys.held.map Block.size).sum =
        (fenced.map fun b => c.exactSysSize b.2).sum + total HuAllocInfo.sysSize (c.kept τ.given) ∧
      (s.sys.held.map Block.size).sum ≤
        (fenced.map fun b => b.2 + 16 + 2 * c.huPageSize).sum + c.huQuarantineMaxSize := by
  intro τ s fenced
  have h : AccessInv c τ := AccessInv.of_run hrun
  have hheld : s.sys.held.Perm s.mal.regions := h.held (SysHeap.settled_exec c lc l is)
  have hbytes : (s.sys.held.map Block.size).sum =
      (fenced.map fun b => c.exactSysSize b.2).sum +
        total HuAllocInfo.sysSize (c.kept τ.given) := by
    rw [(hheld.map Block.size).sum_eq, MallocState.regions, MallocState.owned, List.map_map,
      List.map_append, List.sum_append, ← h.queue, ← h.active_bytes]
    rfl
  refine ⟨hheld, hbytes, ?_⟩
  rw [hbytes]
  refine Nat.add_le_add (List.sum_le_sum fun b _ => ?_) (c.total_kept_le τ.given)
  exact (MallocConfig.exactSysSize_le hpage b.2).le

/-- A block of a page, with a fence, and one of 8 bytes in the quarantine. -/
theorem fenced_footprint_two_blocks :
    let c := { (HuConfig.tools true true true 8).mallocConfig with huQuarantineMaxSize := 8192 }
    let lc := (HuConfig.tools true true true 8).logConfig
    (((exec (QueueTrace.next c lc) (.init logInit)
      [⟨.malloc 8, (CallEnv.answering 8192).ans⟩, ⟨.malloc 4096, (CallEnv.answering 16384).ans⟩,
        ⟨.free 12272, (CallEnv.answering 0).ans⟩]).session.tool.sys.held.map
          Block.size).sum) ≤ (4096 + 16 + 2 * 4096) + 8192 := by
  intro c lc
  have hfenced : (exec (QueueTrace.next c lc) (.init logInit)
      [⟨.malloc 8, (CallEnv.answering 8192).ans⟩, ⟨.malloc 4096, (CallEnv.answering 16384).ans⟩,
        ⟨.free 12272, (CallEnv.answering 0).ans⟩]).session.client = [(16384, 4096)] := by decide
  obtain ⟨-, -, hle⟩ := fenced_footprint c lc logInit (by decide)
    [⟨.malloc 8, (CallEnv.answering 8192).ans⟩, ⟨.malloc 4096, (CallEnv.answering 16384).ans⟩,
      ⟨.free 12272, (CallEnv.answering 0).ans⟩]
    ⟨⟨.inl rfl, fun _ _ => by decide, fun _ _ _ => rfl⟩,
      ⟨.inl rfl, fun _ _ => by decide, fun _ _ _ => rfl⟩,
      ⟨.inr (.inl (by decide)), fun h => absurd h (by decide), fun _ _ _ => rfl⟩, trivial⟩
  rw [hfenced] at hle
  exact hle.trans (by decide)

end Heapusage
