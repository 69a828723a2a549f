/-
Heapusage.Client.Routing — which pointers the wrappers pass to `__libc_free`
and `__libc_realloc`.

§1 Programs: a process with the blocks its program holds, and what a fork
   makes of it.
§2 Claims: every block a program holds and every quarantined block stands for
   one live region, a region of its own (`RouteInv`).
§3 The C library and the fenced allocator keep the claims.
§4 Whole calls, whole programs, and families of forked programs.

`HeapInv` is not enough here. A bypassed call gives a fenced block back without
`hu_free`, and `hu_active_allocs` then keeps an entry whose region is gone. All
that is left to know of such a stale entry is that its block started where its
region does, so `MallocState.base` still answers right.
-/
import Heapusage.Client.HeapInvariant
import Heapusage.Main.Process

namespace Heapusage

open Arenas Runs Tables

/-- The pointer passed on was the base of a region live at that moment. -/
def SysCall.Based : SysCall → Prop
  | .memalign _ => True
  | .free p r _ => r.map Block.base = some p
  | .realloc p _ r => r.map Block.base = some p

instance : DecidablePred SysCall.Based
  | .memalign _ => inferInstanceAs (Decidable True)
  | .free _ _ _ => inferInstanceAs (Decidable (_ = _))
  | .realloc _ _ _ => inferInstanceAs (Decidable (_ = _))

/-- A `free` of the base of a live region. -/
theorem SysHeap.libcFree_based {h : SysHeap} {p : Nat} (hbased : ∀ call ∈ h.calls, call.Based)
    (hfind : ∃ r, h.arena.find p = some r) : ∀ call ∈ (h.libcFree p).calls, call.Based := by
  obtain ⟨r, hr⟩ := hfind
  by_cases hp : p = 0
  · subst hp
    exact hbased
  · rw [SysHeap.libcFree_of_ne _ hp, hr]
    intro call hcall
    rcases List.mem_cons.mp hcall with rfl | hcall
    · exact congrArg some (Arena.mem_of_find hr).2
    · exact hbased call hcall

/-! ## §1 Programs -/

/-- A process and the blocks its program holds. -/
structure Program extends Process where
  client : ClientHeap

namespace Program

def start (c : HuConfig) : Program := ⟨.start c, []⟩

/-- Is the block still there when a `realloc` by thread `t` fails? -/
def keeps (t : Tid) (call : Call) (R : Program) : Bool :=
  !(R.tls t).tracks || R.tool.keeps call

/-- A step of the process, and what it does to the program's heap. -/
def next (c : HuConfig) (R : Program) (i : Step) : Program where
  toProcess := R.toProcess.next c i
  client :=
    match i with
    | .call t call env => call.after (R.keeps t call) (R.result c t call env).2 R.client
    | _ => R.client

/-- `fork`, called by thread `t`: the child inherits the heap. -/
def fork (R : Program) (t : Tid) : Program × Program :=
  (⟨R.toProcess.atforkParent t, R.client⟩, ⟨R.toProcess.atforkChild t, R.client⟩)

end Program

/-! ## §2 Claims -/

/-- Where the region of the block at `p` starts, as far as `hu_free` knows. -/
def MallocState.base (m : MallocState) (p : Nat) : Nat :=
  ((m.huActiveAllocs.lookup p).map HuAllocInfo.sysPtr).getD p

/-- The regions that stand for a block of the program or of the quarantine. -/
def MallocState.claims (m : MallocState) (L : ClientHeap) : List Nat :=
  L.ptrs.map m.base ++ m.huQuarantineAllocs.map HuAllocInfo.sysPtr

theorem MallocState.base_of_active {m : MallocState} {p : Nat} {b : HuAllocInfo}
    (h : m.huActiveAllocs.lookup p = some b) : m.base p = b.sysPtr := by
  simp [MallocState.base, h]

theorem MallocState.base_of_not_active {m : MallocState} {p : Nat}
    (h : m.huActiveAllocs.lookup p = none) : m.base p = p := by
  simp [MallocState.base, h]

theorem MallocState.base_congr {m m' : MallocState} {p : Nat}
    (h : m'.huActiveAllocs.lookup p = m.huActiveAllocs.lookup p) : m'.base p = m.base p := by
  simp only [MallocState.base, h]

theorem ClientHeap.ptrs_perm_drop {L : ClientHeap} {p : Nat} (hp : p ∈ L.ptrs) :
    L.ptrs.Perm (p :: (L.drop p).ptrs) := by
  have hdrop : (L.drop p).ptrs = L.ptrs.erase p := by
    rw [ClientHeap.ptrs, ClientHeap.ptrs, List.erase_eq_eraseP, List.eraseP_map]
    congr 1
    refine congrArg (fun f => List.eraseP f L) (funext fun b => ?_)
    simp only [Function.comp_apply, eq_comm, beq_eq_decide]
  rw [hdrop]
  exact List.perm_cons_erase hp

theorem ClientHeap.mem_ptrs_drop {L : ClientHeap} (hnd : L.ptrs.Nodup) {p q : Nat} :
    q ∈ (L.drop p).ptrs ↔ q ∈ L.ptrs ∧ q ≠ p := by
  constructor
  · intro hq
    obtain ⟨⟨q', n⟩, hmem, rfl⟩ := List.mem_map.mp hq
    obtain ⟨hmem, hne⟩ := (ClientHeap.mem_drop hnd).mp hmem
    exact ⟨List.mem_map_of_mem hmem, hne⟩
  · intro ⟨hq, hne⟩
    obtain ⟨⟨q', n⟩, hmem, rfl⟩ := List.mem_map.mp hq
    exact List.mem_map_of_mem ((ClientHeap.mem_drop hnd).mpr ⟨hmem, hne⟩)

/-- The routing invariant. -/
structure RouteInv (s : HuState) (L : ClientHeap) : Prop where
  covers : s.sys.arena.Covers (s.mal.claims L)
  held : ∀ p ∈ L.ptrs, ∃ r ∈ s.sys.arena.blocks, r.base = s.mal.base p ∧ r.Holds p
  listed : ∀ k b, s.mal.huActiveAllocs.lookup k = some b →
    k ∈ s.mal.huUserAddrs ∧ (k ∈ L.ptrs ∨ b.sysPtr = k)
  based : ∀ call ∈ s.sys.calls, call.Based

namespace RouteInv

variable {s s' : HuState} {L : ClientHeap}

/-- A region being handed out contains no block of the program. -/
theorem not_held (hi : RouteInv s L) {r : Region} (hr : s.sys.arena.Admits r) {q : Nat}
    (hq : r.Holds q) : q ∉ L.ptrs := by
  intro hmem
  obtain ⟨d, hd, -, hdq⟩ := hi.held q hmem
  exact hr.not_holds hd hdq hq

/-- An address that is no block of the program is its own base: an entry for it is stale. -/
theorem base_eq_self (hi : RouteInv s L) {q : Nat} (hq : q ∉ L.ptrs) : s.mal.base q = q := by
  cases hl : s.mal.huActiveAllocs.lookup q with
  | none => exact MallocState.base_of_not_active hl
  | some b =>
    rw [MallocState.base_of_active hl]
    exact (hi.listed q b hl).2.resolve_left hq

theorem ptrs_nodup (hi : RouteInv s L) : L.ptrs.Nodup :=
  List.Nodup.of_map _ hi.covers.nodup.of_append_left

theorem base_mem_claims {p : Nat} (hp : p ∈ L.ptrs) : s.mal.base p ∈ s.mal.claims L :=
  List.mem_append_left _ (List.mem_map_of_mem hp)

/-- Null is no block. -/
theorem null_not_held (hi : RouteInv s L) : 0 ∉ L.ptrs := by
  intro hmem
  obtain ⟨r, hr, -, hholds⟩ := hi.held 0 hmem
  exact s.sys.arena.ne_zero_of_holds hr hholds rfl

/-- No claim is on null. -/
theorem claim_ne_zero (hi : RouteInv s L) {a : Nat} (ha : a ∈ s.mal.claims L) : a ≠ 0 := by
  obtain ⟨r, hr, hbase⟩ := hi.covers.live a ha
  rw [← hbase]
  exact s.sys.arena.base_ne_zero hr

/-- Nothing the invariant looks at has changed. -/
theorem congr (hi : RouteInv s L) (hmal : s'.mal = s.mal) (harena : s'.sys.arena = s.sys.arena)
    (hcalls : s'.sys.calls = s.sys.calls) : RouteInv s' L := by
  refine ⟨?_, ?_, ?_, ?_⟩
  · rw [hmal, harena]
    exact hi.covers
  · rw [hmal, harena]
    exact hi.held
  · rw [hmal]
    exact hi.listed
  · rw [hcalls]
    exact hi.based

/-- The program receives `q`, which lies in a region handed out for it. -/
theorem receive (hi : RouteInv s L) {r : Region} (hr : s.sys.arena.Admits r) {q : Nat}
    (hq : r.Holds q) (n : Nat) (harena : s'.sys.arena = s.sys.arena.add r hr)
    (hqueue : s'.mal.huQuarantineAllocs = s.mal.huQuarantineAllocs)
    (hbase : s'.mal.base q = r.base) (hother : ∀ p ∈ L.ptrs, s'.mal.base p = s.mal.base p)
    (hlisted : ∀ k b, s'.mal.huActiveAllocs.lookup k = some b →
      k ∈ s'.mal.huUserAddrs ∧ (k = q ∨ k ∈ L.ptrs ∨ b.sysPtr = k))
    (hbased : ∀ call ∈ s'.sys.calls, call.Based) : RouteInv s' (L.receive q n) := by
  have hne : q ≠ 0 := hr.ne_zero_of_holds hq
  have hptrs : (L.receive q n).ptrs = q :: L.ptrs := by
    rw [ClientHeap.receive, if_neg hne]
    rfl
  have hclaims : s'.mal.claims (L.receive q n) = r.base :: s.mal.claims L := by
    simp only [MallocState.claims, hptrs, hqueue, List.map_cons, hbase, List.cons_append]
    rw [List.map_congr_left hother]
  refine ⟨?_, ?_, ?_, hbased⟩
  · rw [hclaims, harena]
    exact hi.covers.add hr
  · intro p hp
    rw [hptrs] at hp
    rw [harena]
    rcases List.mem_cons.mp hp with rfl | hp
    · exact ⟨r, (Arena.mem_add _ _ _ hr).mpr (.inl rfl), hbase.symm, hq⟩
    · obtain ⟨d, hd, hdbase, hdp⟩ := hi.held p hp
      exact ⟨d, (Arena.mem_add _ _ _ hr).mpr (.inr hd), by rw [hdbase, hother p hp], hdp⟩
  · intro k b hk
    obtain ⟨haddr, hcase⟩ := hlisted k b hk
    rw [hptrs, List.mem_cons, or_assoc]
    exact ⟨haddr, hcase⟩

/-- The program gives up `p` and its region goes back to the system. An entry
left behind for it has to be harmless. -/
theorem giveUp (hi : RouteInv s L) {p : Nat} (hp : p ∈ L.ptrs)
    (harena : s'.sys.arena = s.sys.arena.release (s.mal.base p))
    (hqueue : s'.mal.huQuarantineAllocs = s.mal.huQuarantineAllocs)
    (haddrs : s'.mal.huUserAddrs = s.mal.huUserAddrs)
    (hsub : ∀ k b, s'.mal.huActiveAllocs.lookup k = some b →
      s.mal.huActiveAllocs.lookup k = some b)
    (hother : ∀ q, q ≠ p → s'.mal.huActiveAllocs.lookup q = s.mal.huActiveAllocs.lookup q)
    (hself : ∀ b, s'.mal.huActiveAllocs.lookup p = some b → b.sysPtr = p)
    (hbased : ∀ call ∈ s'.sys.calls, call.Based) : RouteInv s' (L.drop p) := by
  have hmem : ∀ q, q ∈ (L.drop p).ptrs ↔ q ∈ L.ptrs ∧ q ≠ p :=
    fun _ => ClientHeap.mem_ptrs_drop hi.ptrs_nodup
  have hbase : ∀ q ∈ (L.drop p).ptrs, s'.mal.base q = s.mal.base q :=
    fun q hq => MallocState.base_congr (hother q ((hmem q).mp hq).2)
  have hclaims : s.sys.arena.Covers (s.mal.base p :: s'.mal.claims (L.drop p)) := by
    refine hi.covers.subperm (List.Perm.subperm ?_)
    simp only [MallocState.claims, hqueue]
    rw [List.map_congr_left hbase]
    exact (((ClientHeap.ptrs_perm_drop hp).map s.mal.base).append_right _).symm
  refine ⟨?_, ?_, ?_, hbased⟩
  · rw [harena]
    exact hclaims.release
  · intro q hq
    obtain ⟨d, hd, hdbase, hdq⟩ := hi.held q ((hmem q).mp hq).1
    rw [harena, hbase q hq]
    refine ⟨d, (Arena.mem_release _ _ _).mpr ⟨hd, fun hdp => ?_⟩, hdbase, hdq⟩
    refine (List.nodup_cons.mp hclaims.nodup).1 ?_
    rw [← hdp, hdbase, ← hbase q hq]
    exact base_mem_claims hq
  · intro k b hk
    obtain ⟨haddr, hcase⟩ := hi.listed k b (hsub k b hk)
    refine ⟨haddrs ▸ haddr, ?_⟩
    by_cases hkp : k = p
    · subst hkp
      exact .inr (hself b hk)
    · exact hcase.imp (fun hkL => (hmem k).mpr ⟨hkL, hkp⟩) id

/-- The program gives up `p` and its region joins the quarantine. -/
theorem enqueue (hi : RouteInv s L) {p : Nat} (hp : p ∈ L.ptrs) {b : HuAllocInfo}
    (hb : s.mal.huActiveAllocs.lookup p = some b)
    (hactive : s'.mal.huActiveAllocs = s.mal.huActiveAllocs.erase p)
    (hqueue : s'.mal.huQuarantineAllocs = s.mal.huQuarantineAllocs ++ [b])
    (haddrs : s'.mal.huUserAddrs = s.mal.huUserAddrs)
    (harena : s'.sys.arena = s.sys.arena) (hcalls : s'.sys.calls = s.sys.calls) :
    RouteInv s' (L.drop p) := by
  have hmem : ∀ q, q ∈ (L.drop p).ptrs ↔ q ∈ L.ptrs ∧ q ≠ p :=
    fun _ => ClientHeap.mem_ptrs_drop hi.ptrs_nodup
  have hbase : ∀ q ∈ (L.drop p).ptrs, s'.mal.base q = s.mal.base q := by
    intro q hq
    exact MallocState.base_congr (by rw [hactive, AList.lookup_erase_ne ((hmem q).mp hq).2])
  refine ⟨?_, ?_, ?_, ?_⟩
  · rw [harena]
    refine hi.covers.subperm (List.Perm.subperm ?_)
    simp only [MallocState.claims, hqueue, List.map_append, List.map_cons, List.map_nil]
    rw [List.map_congr_left hbase, ← List.append_assoc]
    refine List.perm_append_comm.trans ?_
    rw [← MallocState.base_of_active hb]
    exact (((ClientHeap.ptrs_perm_drop hp).map s.mal.base).append_right _).symm
  · intro q hq
    obtain ⟨d, hd, hdbase, hdq⟩ := hi.held q ((hmem q).mp hq).1
    rw [harena, hbase q hq]
    exact ⟨d, hd, hdbase, hdq⟩
  · intro k d hk
    rw [hactive, lookup_erase_eq_some] at hk
    obtain ⟨haddr, hcase⟩ := hi.listed k d hk.2
    exact ⟨haddrs ▸ haddr, hcase.imp (fun hkL => (hmem k).mpr ⟨hkL, hk.1⟩) id⟩
  · rw [hcalls]
    exact hi.based

/-- The program gives up `p` and nothing else happens. -/
theorem forget (hi : RouteInv s L) {p : Nat} (hact : s.mal.huActiveAllocs.lookup p = none) :
    RouteInv s (L.drop p) := by
  have hmem : ∀ q, q ∈ (L.drop p).ptrs ↔ q ∈ L.ptrs ∧ q ≠ p :=
    fun _ => ClientHeap.mem_ptrs_drop hi.ptrs_nodup
  refine ⟨hi.covers.subperm ?_, fun q hq => hi.held q ((hmem q).mp hq).1, ?_, hi.based⟩
  · have hmap : ((L.drop p).ptrs.map s.mal.base).Sublist (L.ptrs.map s.mal.base) :=
      ((ClientHeap.drop_sublist p L).map Prod.fst).map _
    exact (hmap.append_right _).subperm
  · intro k b hk
    obtain ⟨haddr, hcase⟩ := hi.listed k b hk
    have hkp : k ≠ p := by
      intro heq
      rw [heq, hact] at hk
      cases hk
    exact ⟨haddr, hcase.imp (fun hkL => (hmem k).mpr ⟨hkL, hkp⟩) id⟩

/-! ## §3 The C library -/

/-- A pass-through region handed to the program. -/
theorem receive_malloc (hi : RouteInv s L) {n : Nat} {ans : SysAns} {fill : Nat → UInt8}
    (hr : s.sys.arena.Admits ⟨ans.ptr, n, .malloc⟩) :
    RouteInv { s with sys := s.sys.granted ⟨ans.ptr, n, .malloc⟩ fill hr }
      (L.receive ans.ptr n) := by
  have hfresh : ans.ptr ∉ L.ptrs := hi.not_held hr (Block.holds_base _)
  refine hi.receive hr (Block.holds_base _) n rfl rfl (hi.base_eq_self hfresh)
    (fun _ _ => rfl) ?_ hi.based
  intro k b hk
  obtain ⟨haddr, hcase⟩ := hi.listed k b hk
  exact ⟨haddr, .inr hcase⟩

theorem libcMalloc_keeps (hi : RouteInv s L) (ans : SysAns) (n : Nat) :
    RouteInv (s.libcMalloc ans n).1 (L.receive (s.libcMalloc ans n).2 n) := by
  unfold HuState.libcMalloc
  rcases SysHeap.libcMalloc_cases ans s.sys n with h | ⟨hr, h⟩
  · simp only [h, ClientHeap.receive, if_true]
    exact hi
  · simp only [h]
    exact hi.receive_malloc hr

theorem libcCalloc_keeps (hi : RouteInv s L) (ans : SysAns) (nmemb size : Nat) :
    RouteInv (s.libcCalloc ans nmemb size).1
      (L.receive (s.libcCalloc ans nmemb size).2 (nmemb * size)) := by
  unfold HuState.libcCalloc
  rcases SysHeap.libcCalloc_cases ans s.sys nmemb size with h | ⟨-, hr, h⟩
  · simp only [h, ClientHeap.receive, if_true]
    exact hi
  · simp only [h]
    exact hi.receive_malloc hr

/-- `free` of a block whose region starts at it. -/
theorem libcFree_keeps (hi : RouteInv s L) {p : Nat} (hp : p ∈ L.ptrs)
    (hbase : s.mal.base p = p) : RouteInv (s.libcFree p) (L.drop p) := by
  have hclaim : p ∈ s.mal.claims L := hbase ▸ base_mem_claims hp
  have hne : p ≠ 0 := hi.claim_ne_zero hclaim
  refine hi.giveUp hp ?_ rfl rfl (fun _ _ h => h) (fun _ _ => rfl) ?_
    (SysHeap.libcFree_based hi.based (hi.covers.find hclaim))
  · rw [hbase, HuState.libcFree, SysHeap.libcFree_of_ne _ hne]
  · intro b hb
    rw [← MallocState.base_of_active hb]
    exact hbase

/-- `realloc` of such a block: whether it fails or not, a live base was passed on. -/
theorem libcRealloc_keeps (hi : RouteInv s L) {p : Nat} (hp : p ∈ L.ptrs)
    (hbase : s.mal.base p = p) (ans : SysAns) (size : Nat) :
    RouteInv (s.libcRealloc ans p size).1
      ((Call.realloc p size).after true (s.libcRealloc ans p size).2 L) := by
  have hclaim : p ∈ s.mal.claims L := hbase ▸ base_mem_claims hp
  have hne : p ≠ 0 := hi.claim_ne_zero hclaim
  obtain ⟨r, hfind⟩ := hi.covers.find hclaim
  have hrecorded : ∀ call ∈ (s.sys.recorded p size).calls, call.Based := by
    intro call hcall
    rcases List.mem_cons.mp hcall with rfl | hcall
    · show (s.sys.arena.find p).map Block.base = some p
      rw [hfind]
      exact congrArg some (Arena.mem_of_find hfind).2
    · exact hi.based call hcall
  have hvacated : RouteInv { s with sys := s.sys.vacated p size } (L.drop p) := by
    refine hi.giveUp hp ?_ rfl rfl (fun _ _ h => h) (fun _ _ => rfl) ?_ hrecorded
    · rw [hbase]
      rfl
    · intro b hb
      rw [← MallocState.base_of_active hb]
      exact hbase
  unfold HuState.libcRealloc Call.after
  rcases SysHeap.libcRealloc_cases ans s.sys hne hfind size with ⟨hz, h⟩ | ⟨hz, h⟩ | ⟨hz, hn, h⟩
  · subst hz
    simp only [h, hne, if_false, ne_eq, not_true_eq_false, and_false, ClientHeap.receive, if_true]
    exact hvacated
  · simp only [h, hne, hz, if_false, ne_eq, not_false_eq_true, and_self, if_true]
    exact ⟨hi.covers, hi.held, hi.listed, hrecorded⟩
  · have hq : ans.ptr ≠ 0 := hn.base_ne_zero
    simp only [h, hne, hq, if_false, false_and]
    exact hvacated.receive_malloc hn

/-- **The C library keeps the claims** when the block it is given, if any, is
one of the program's that starts where its region does. -/
theorem libcCall_keeps (hi : RouteInv s L) (ans : SysAns) (call : Call)
    (hcall : call.Permitted L) (hbase : s.mal.base call.argument = call.argument) :
    RouteInv (libcCall ans call s).1 (call.after true (libcCall ans call s).2 L) := by
  cases call with
  | malloc size => exact hi.libcMalloc_keeps ans size
  | calloc nmemb size => exact hi.libcCalloc_keeps ans nmemb size
  | free ptr =>
    rcases hcall with h | h
    · simp only [Call.argument] at h
      subst h
      show RouteInv s (L.drop 0)
      rw [ClientHeap.drop_of_not_mem hi.null_not_held]
      exact hi
    · exact hi.libcFree_keeps h hbase
  | realloc ptr size =>
    rcases hcall with h | h
    · simp only [Call.argument] at h
      subst h
      exact hi.libcMalloc_keeps ans size
    · exact hi.libcRealloc_keeps h hbase ans size

end RouteInv

/-! ## §4 The fenced allocator -/

/-- What a program may pass to the fenced allocator: null, one of its blocks,
and to `hu_free` an address that was once a fenced block and is no active one. -/
def Call.Given (s : HuState) (L : ClientHeap) : Call → Prop
  | .free p => p = 0 ∨ p ∈ L.ptrs ∨ (p ∈ s.mal.huUserAddrs ∧ p ∉ s.mal.huActiveAllocs)
  | call => call.Permitted L

instance (s : HuState) (L : ClientHeap) : DecidablePred (Call.Given s L)
  | .free _ => inferInstanceAs (Decidable (_ ∨ _ ∨ (_ ∧ _)))
  | .malloc size => inferInstanceAs (Decidable ((Call.malloc size).Permitted L))
  | .calloc nmemb size => inferInstanceAs (Decidable ((Call.calloc nmemb size).Permitted L))
  | .realloc ptr size => inferInstanceAs (Decidable ((Call.realloc ptr size).Permitted L))

/-- Where a fenced request that is granted puts its block: in its region, and
not at an address with a stale entry unless the region starts there. -/
def HuState.Places (c : MallocConfig) (ans : SysAns) (n : Nat) (s : HuState) : Prop :=
  s.sys.arena.Admits (fencedRegion c ans n) →
    c.Placed n ∧
      ((allocInfoAt c n ans.ptr).userPtr ∈ s.mal.huActiveAllocs →
        (allocInfoAt c n ans.ptr).userPtr = ans.ptr)

instance (c : MallocConfig) (ans : SysAns) (n : Nat) (s : HuState) :
    Decidable (s.Places c ans n) :=
  inferInstanceAs (Decidable (_ → _))

namespace RouteInv

variable {s s' : HuState} {L : ClientHeap} {c : MallocConfig} {lc : LogConfig} {ans : SysAns}

/-- A fenced block handed to the program. -/
theorem receive_fenced (hi : RouteInv s L) {n : Nat}
    (hr : s.sys.arena.Admits (fencedRegion c ans n)) (hplaces : s.Places c ans n) :
    RouteInv (storeAllocInfo (allocInfoAt c n ans.ptr) (fencedAt c ans n s hr))
      (L.receive (allocInfoAt c n ans.ptr).userPtr n) := by
  obtain ⟨hplaced, hstale⟩ := hplaces hr
  have hholds : (fencedRegion c ans n).Holds (allocInfoAt c n ans.ptr).userPtr :=
    allocInfoAt_holds hplaced hr.2.1
  have hfresh := hi.not_held hr hholds
  set b := allocInfoAt c n ans.ptr with hb
  have hactive : (storeAllocInfo b (fencedAt c ans n s hr)).mal.huActiveAllocs =
      insertNew b.userPtr b s.mal.huActiveAllocs := by
    simp only [storeAllocInfo, fencedAt_active]
  have hne : ∀ p ∈ L.ptrs, p ≠ b.userPtr := fun p hp heq => hfresh (heq ▸ hp)
  refine hi.receive hr hholds n ?_ ?_ ?_ ?_ ?_ ?_
  · simp only [storeAllocInfo, fencedAt_arena]
  · simp only [storeAllocInfo, fencedAt_queue]
  · by_cases hmem : b.userPtr ∈ s.mal.huActiveAllocs
    · have hsame : (storeAllocInfo b (fencedAt c ans n s hr)).mal.base b.userPtr =
          s.mal.base b.userPtr :=
        MallocState.base_congr (by rw [hactive, insertNew_of_mem hmem])
      rw [hsame, hi.base_eq_self hfresh]
      exact hstale hmem
    · refine MallocState.base_of_active (b := b) ?_
      rw [hactive, insertNew_of_not_mem hmem, AList.lookup_insert]
  · intro p hp
    exact MallocState.base_congr (by rw [hactive, lookup_insertNew_ne (hne p hp)])
  · intro k d hk
    simp only [storeAllocInfo, fencedAt_addrs, Finset.mem_insert]
    by_cases hkb : k = b.userPtr
    · exact ⟨.inl hkb, .inl hkb⟩
    · rw [hactive, lookup_insertNew_ne hkb] at hk
      obtain ⟨haddr, hcase⟩ := hi.listed k d hk
      exact ⟨.inr haddr, .inr hcase⟩
  · simp only [storeAllocInfo, fencedAt_calls]
    intro call hcall
    rcases List.mem_cons.mp hcall with rfl | hcall
    · trivial
    · exact hi.based call hcall

theorem huMalloc_keeps (hi : RouteInv s L) (n : Nat)
    (hplaces : 0 < n → c.huMinsize ≤ n → s.Places c ans n) :
    RouteInv (huMalloc c ans n s).1 (L.receive (huMalloc c ans n s).2 n) := by
  rcases huMalloc_cases c ans n s with ⟨-, h⟩ | ⟨⟨-, hpos, hmin⟩, h | ⟨-, hr, h⟩⟩
  · rw [h]
    exact hi.libcMalloc_keeps ans n
  · rw [h]
    simpa [ClientHeap.receive] using hi
  · rw [h]
    exact hi.receive_fenced hr (hplaces hpos hmin)

theorem huCalloc_keeps (hi : RouteInv s L) (count size : Nat)
    (hinit : s.mal.huMallocInited = true)
    (hplaces : 0 < count * size → c.huMinsize ≤ count * size → s.Places c ans (count * size)) :
    RouteInv (huCalloc c ans count size s).1
      (L.receive (huCalloc c ans count size s).2 (count * size)) := by
  rcases huCalloc_cases c ans count size s hinit with ⟨-, h⟩ | ⟨-, h⟩ | ⟨-, -, h⟩
  · rw [h]
    exact hi.libcCalloc_keeps ans count size
  · rw [h]
    simpa [ClientHeap.receive] using hi
  · rw [h]
    exact (hi.huMalloc_keeps (count * size) hplaces).congr (by simp) (by simp) (by simp)

/-- The front of the queue goes back to the system. -/
theorem evictFront_keeps (hi : RouteInv s L) {info : HuAllocInfo} {rest : List HuAllocInfo}
    (hq : s.mal.huQuarantineAllocs = info :: rest) :
    RouteInv (evictFront c lc ans info s) L := by
  have hclaims : s.sys.arena.Covers
      (info.sysPtr :: (evictFront c lc ans info s).mal.claims L) := by
    refine hi.covers.subperm (List.Perm.subperm ?_)
    simp only [MallocState.claims, evictFront_queue, hq, List.tail_cons, List.map_cons]
    exact List.perm_middle.symm
  have hclaim : info.sysPtr ∈ s.mal.claims L := by
    refine List.mem_append_right _ ?_
    rw [hq]
    exact List.mem_cons_self ..
  have hne := hi.claim_ne_zero hclaim
  have harena : (evictFront c lc ans info s).sys.arena = s.sys.arena.release info.sysPtr := by
    rw [evictFront_sys, SysHeap.libcFree_of_ne _ hne, huMprotect_arena]
  refine ⟨?_, ?_, hi.listed, ?_⟩
  · rw [harena]
    exact hclaims.release
  · intro p hp
    obtain ⟨d, hd, hdbase, hdp⟩ := hi.held p hp
    rw [harena]
    refine ⟨d, (Arena.mem_release _ _ _).mpr ⟨hd, fun hbase => ?_⟩, hdbase, hdp⟩
    refine (List.nodup_cons.mp hclaims.nodup).1 ?_
    rw [← hbase, hdbase]
    exact List.mem_append_left _ (List.mem_map_of_mem hp)
  · rw [evictFront_sys]
    refine SysHeap.libcFree_based ?_ ?_
    · rw [huMprotect_calls]
      exact hi.based
    · rw [huMprotect_arena]
      exact hi.covers.find hclaim

/-- A block joins the queue: its claim moves from the program to the quarantine. -/
theorem quarantine_keeps (hi : RouteInv s L) {p : Nat} (hp : p ∈ L.ptrs) {b : HuAllocInfo}
    (hb : s.mal.huActiveAllocs.lookup p = some b) :
    RouteInv (quarantine c lc ans b
      { s with mal := { s.mal with huActiveAllocs := s.mal.huActiveAllocs.erase p } })
      (L.drop p) := by
  unfold quarantine
  refine evictLoop_invariant c lc ans (P := fun s => RouteInv s (L.drop p))
    (fun info rest s hq hs => hs.evictFront_keeps hq) _ _ rfl ?_
  exact hi.enqueue hp hb rfl rfl rfl (by simp) (by simp)

/-- `hu_free` of null, of a block of the program, or of an address that was
once a fenced block and is no active one. -/
theorem huFree_keeps (hi : RouteInv s L) (p : Nat) (hinit : s.mal.huMallocInited = true)
    (hp : p = 0 ∨ p ∈ L.ptrs ∨ (p ∈ s.mal.huUserAddrs ∧ p ∉ s.mal.huActiveAllocs)) :
    RouteInv (huFree c lc ans p s) (L.drop p) := by
  rcases huFree_cases c lc ans p s hinit with ⟨h0, h⟩ | ⟨hne, haddr, h⟩ | ⟨-, -, hb, h⟩ |
    ⟨hne, -, b, hb, h⟩
  · rw [h, h0, ClientHeap.drop_of_not_mem hi.null_not_held]
    exact hi
  · have hmem : p ∈ L.ptrs := by
      rcases hp with hp | hp | hp
      · exact absurd hp hne
      · exact hp
      · exact absurd hp.1 haddr
    have hb : s.mal.huActiveAllocs.lookup p = none := by
      cases hl : s.mal.huActiveAllocs.lookup p with
      | none => rfl
      | some b => exact absurd (hi.listed p b hl).1 haddr
    rw [h]
    exact hi.libcFree_keeps hmem (MallocState.base_of_not_active hb)
  · rw [h]
    exact hi.forget hb
  · have hmem : p ∈ L.ptrs := by
      rcases hp with hp | hp | hp
      · exact absurd hp hne
      · exact hp
      · exact absurd (mem_of_lookup hb) hp.2
    rw [h]
    cases c.huUseafterfree with
    | true => exact hi.quarantine_keeps hmem hb
    | false =>
      have hclaim : b.sysPtr ∈ s.mal.claims L :=
        MallocState.base_of_active hb ▸ base_mem_claims hmem
      have hbase := hi.claim_ne_zero hclaim
      refine hi.giveUp hmem ?_ rfl rfl ?_ ?_ ?_ ?_
      · rw [MallocState.base_of_active hb]
        simp [HuState.libcFree, SysHeap.libcFree_of_ne _ hbase]
      · intro k d hk
        exact (lookup_erase_eq_some.mp hk).2
      · intro q hq
        exact AList.lookup_erase_ne hq
      · intro d hd
        exact absurd rfl (lookup_erase_eq_some.mp hd).1
      · refine SysHeap.libcFree_based ?_ ?_
        · rw [huMprotect_calls]
          exact hi.based
        · rw [huMprotect_arena]
          exact hi.covers.find hclaim

/-- `hu_realloc` of null or of a block of the program. -/
theorem huRealloc_keeps (hi : RouteInv s L) (p n : Nat) (hinit : s.mal.huMallocInited = true)
    (hp : p = 0 ∨ p ∈ L.ptrs) (hplaces : 0 < n → c.huMinsize ≤ n → s.Places c ans n) :
    RouteInv (huRealloc c lc ans p n s).1
      ((Call.realloc p n).after (s.mal.huActiveAllocs.lookup p).isNone
        (huRealloc c lc ans p n s).2 L) := by
  rcases huRealloc_cases c lc ans p n s hinit with ⟨hp0, h⟩ | ⟨hne, hn, h⟩ |
    ⟨hne, hn, b, hb, h⟩ | ⟨hne, hn, hb, h⟩
  · rw [h]
    simp only [Call.after, hp0, if_true]
    exact hi.huMalloc_keeps n hplaces
  · rw [h]
    simp only [Call.after, hne, hn, if_false, ne_eq, not_true_eq_false, and_false,
      ClientHeap.receive, if_true]
    exact hi.huFree_keeps p hinit (hp.imp id .inl)
  · have hmem := hp.resolve_left hne
    have hmal := hi.huMalloc_keeps n hplaces
    have hcopied : RouteInv (reallocCopied c ans b n s) (L.receive (huMalloc c ans n s).2 n) :=
      hmal.congr (by simp) (by simp) (reallocCopied_calls c ans b n s)
    have hfreed : RouteInv (huFree c lc ans p (reallocCopied c ans b n s))
        ((L.receive (huMalloc c ans n s).2 n).drop p) :=
      hcopied.huFree_keeps p (by simpa using hinit) (.inr (.inl (ClientHeap.mem_ptrs_receive hmem)))
    rw [h, hb]
    simp only [Call.after, hne, hn, if_false, ne_eq, not_false_eq_true, and_true,
      Option.isNone_some, Bool.false_eq_true]
    by_cases hq : (huMalloc c ans n s).2 = 0
    · rw [if_pos hq]
      simpa only [hq, ClientHeap.receive, if_true] using hfreed
    · have hfresh := ClientHeap.receive_fresh hmal.ptrs_nodup hq
      have hqp : (huMalloc c ans n s).2 ≠ p := fun heq => hfresh (heq ▸ hmem)
      rw [if_neg hq, ← ClientHeap.drop_receive hqp]
      exact hfreed
  · rw [h, hb]
    exact hi.libcRealloc_keeps (hp.resolve_left hne) (MallocState.base_of_not_active hb) ans n

/-- **The fenced allocator keeps the claims.** -/
theorem huCall_keeps (hi : RouteInv s L) (call : Call) (hinit : s.mal.huMallocInited = true)
    (hcall : call.Given s L)
    (hplaces : 0 < call.requested → c.huMinsize ≤ call.requested →
      s.Places c ans call.requested) :
    RouteInv (huCall c lc ans call s).1
      (call.after (s.keeps call) (huCall c lc ans call s).2 L) := by
  cases call with
  | malloc size => exact hi.huMalloc_keeps size hplaces
  | free ptr => exact hi.huFree_keeps ptr hinit hcall
  | calloc nmemb size => exact hi.huCalloc_keeps nmemb size hinit hplaces
  | realloc ptr size => exact hi.huRealloc_keeps ptr size hinit hcall hplaces

end RouteInv

/-! ## §5 Programs -/

/-- The calls that keep to the routing. A tracked one passes on what the
program has, and a fenced block it asks for is put where `hu_free` will find
its region. One handed to the C library passes on what the program has, and
that is where its region starts. -/
def Call.Routes (c : HuConfig) (e : CallEnv) (t : ThreadLocal) (s : HuState) (L : ClientHeap)
    (call : Call) : Prop :=
  if t.tracks = true ∧ c.huEnableHumalloc = true then
    call.Given s L ∧
      (0 < call.requested → c.huMinsize ≤ call.requested →
        s.Places c.mallocConfig e.ans call.requested)
  else call.Permitted L ∧ s.mal.base call.argument = call.argument

instance (c : HuConfig) (e : CallEnv) (t : ThreadLocal) (s : HuState) (L : ClientHeap)
    (call : Call) : Decidable (call.Routes c e t s L) := by
  unfold Call.Routes
  infer_instance

/-- The steps of the runs considered; only calls are restricted. -/
def Program.Routes (c : HuConfig) (R : Program) : Step → Prop
  | .call t call env => call.Routes c env (R.tls t) R.tool R.client
  | _ => True

/-- The program passes on null or what it has. -/
def Program.Permits (R : Program) : Step → Prop
  | .call _ call _ => call.Permitted R.client
  | _ => True

instance (c : HuConfig) (R : Program) : DecidablePred (R.Routes c)
  | .call t call env => inferInstanceAs (Decidable (call.Routes c env (R.tls t) R.tool R.client))
  | .report _ _ => inferInstanceAs (Decidable True)
  | .fini _ _ => inferInstanceAs (Decidable True)

instance (R : Program) : DecidablePred R.Permits
  | .call _ call _ => inferInstanceAs (Decidable (call.Permitted R.client))
  | .report _ _ => inferInstanceAs (Decidable True)
  | .fini _ _ => inferInstanceAs (Decidable True)

/-- The invariant of a program. -/
structure Program.Routed (c : HuConfig) (R : Program) : Prop where
  inited : R.tool.mal.huMallocInited = c.huEnableHumalloc
  plain : c.huEnableHumalloc = false → R.tool.mal.huActiveAllocs = ∅
  route : RouteInv R.tool R.client

namespace Program.Routed

variable {c : HuConfig} {R : Program}

theorem start : (Program.start c).Routed c := by
  refine ⟨huInit_inited c, fun _ => huInit_active c, ?_, ?_, ?_, ?_⟩
  · show Arena.empty.Covers ((huInit c).mal.claims [])
    rw [MallocState.claims, huInit_queue]
    exact Arena.Covers.nil _
  · intro p hp
    exact absurd hp List.not_mem_nil
  · intro k b hk
    have hk' : (huInit c).mal.huActiveAllocs.lookup k = some b := hk
    rw [huInit_active, AList.lookup_empty] at hk'
    cases hk'
  · intro call hcall
    exact absurd hcall List.not_mem_nil

/-- The allocator half of a tracked call, both allocators. -/
theorem allocHalf_keeps (h : R.Routed c) {t : Tid} (htracks : (R.tls t).tracks = true)
    (call : Call) (env : CallEnv) (hroutes : call.Routes c env (R.tls t) R.tool R.client) :
    RouteInv (allocHalf c env.ans call R.tool).1
      (call.after (R.tool.keeps call) (allocHalf c env.ans call R.tool).2 R.client) := by
  unfold Call.Routes at hroutes
  unfold allocHalf
  cases hon : c.huEnableHumalloc with
  | true =>
    rw [if_pos ⟨htracks, hon⟩] at hroutes
    exact h.route.huCall_keeps call (by rw [h.inited, hon]) hroutes.1 hroutes.2
  | false =>
    rw [if_neg (by simp [hon])] at hroutes
    have hkeeps : R.tool.keeps call = true := by simp [HuState.keeps, h.plain hon]
    rw [hkeeps]
    exact h.route.libcCall_keeps env.ans call hroutes.1 hroutes.2

/-- A wrapper call keeps the invariant, on both ways through the guards. -/
theorem call (h : R.Routed c) (t : Tid) (call : Call) (env : CallEnv)
    (hroutes : call.Routes c env (R.tls t) R.tool R.client) :
    (R.next c (.call t call env)).Routed c := by
  have hnext : R.next c (.call t call env) =
      ⟨⟨(R.result c t call env).1, R.tls⟩,
        call.after (R.keeps t call) (R.result c t call env).2 R.client⟩ := rfl
  rw [hnext, Process.result, wrapper_eq]
  cases htracks : (R.tls t).tracks with
  | false =>
    have hkeeps : R.keeps t call = true := by simp [Program.keeps, htracks]
    rw [Call.Routes, if_neg (by simp [htracks])] at hroutes
    rw [hkeeps, if_neg Bool.false_ne_true]
    refine ⟨?_, ?_, h.route.libcCall_keeps env.ans call hroutes.1 hroutes.2⟩
    · rw [libcCall_mal, h.inited]
    · rw [libcCall_mal]
      exact h.plain
  | true =>
    have hkeeps : R.keeps t call = R.tool.keeps call := by simp [Program.keeps, htracks]
    rw [hkeeps, if_pos rfl]
    refine ⟨?_, ?_, ?_⟩
    · rw [logHalf_mal, allocHalf_inited, h.inited]
    · intro hoff
      rw [logHalf_mal, allocHalf, if_neg (by rw [hoff]; exact Bool.false_ne_true), libcCall_mal]
      exact h.plain hoff
    · exact (h.allocHalf_keeps htracks call env hroutes).congr (logHalf_mal ..)
        (by rw [logHalf_sys]) (by rw [logHalf_sys])

/-- A step that leaves the heap and the allocator alone. -/
theorem congr (h : R.Routed c) {R' : Program} (hsys : R'.tool.sys = R.tool.sys)
    (hmal : R'.tool.mal = R.tool.mal) (hclient : R'.client = R.client) : R'.Routed c := by
  refine ⟨by rw [hmal, h.inited], by rw [hmal]; exact h.plain, ?_⟩
  rw [hclient]
  exact h.route.congr hmal (by rw [hsys]) (by rw [hsys])

/-- **One step of a program keeps the invariant.** -/
theorem next (h : R.Routed c) {i : Step} (hi : R.Routes c i) : (R.next c i).Routed c := by
  cases i with
  | call t call env => exact h.call t call env hi
  | report t phase =>
    obtain ⟨hsys, hmal⟩ := Process.huReport_heap c t R.toProcess phase
    exact h.congr hsys hmal rfl
  | fini t phase =>
    obtain ⟨hsys, hmal⟩ := Process.huFini_heap c t R.toProcess phase
    exact h.congr hsys hmal rfl

/-- So do both sides of a fork. -/
theorem fork (h : R.Routed c) (t : Tid) : (R.fork t).1.Routed c ∧ (R.fork t).2.Routed c :=
  ⟨h.congr rfl rfl rfl, h.congr rfl rfl rfl⟩

end Program.Routed

/-- **Pointer routing**: in every process of every run of a program and its
forked children whose steps keep to the routing, every pointer passed to
`__libc_free` or `__libc_realloc` was the base of a live region. -/
theorem released_pointers_based (c : HuConfig) (ms : List (Nat × Move Step Tid))
    (hrun : Along (familyNext (Program.next c) Program.fork) (familyOk (Program.Routes c))
      [.start c] ms) :
    ∀ R ∈ exec (familyNext (Program.next c) Program.fork) [.start c] ms,
      ∀ call ∈ R.tool.sys.calls, call.Based := by
  have hinit : ∀ R ∈ [Program.start c], R.Routed c := by
    intro R hR
    rw [List.mem_singleton.mp hR]
    exact Program.Routed.start
  intro R hR
  exact (Along.family (fun R i h hi => Program.Routed.next h hi)
    (fun R t h => Program.Routed.fork h t) ms _ hinit hrun R hR).route.based

/-- Without fences a child may free what it inherited, its wrappers bypassed. -/
theorem released_pointers_based_inherited :
    let c := HuConfig.tools false false true 0
    ∀ R ∈ exec (familyNext (Program.next c) Program.fork) [.start c]
        [(0, .step (.call 0 (.malloc 8) (.answering 8192))), (0, .split 0),
          (1, .step (.call 0 (.free 8192) (.answering 0))),
          (0, .step (.call 0 (.free 8192) (.answering 0)))],
      ∀ call ∈ R.tool.sys.calls, call.Based := by
  intro c
  exact released_pointers_based c _ (by decide)

/-- With fences the bypassed call passes on the offset pointer. -/
theorem child_frees_offset_pointer :
    let c := HuConfig.tools false true false 0
    let ms : List (Nat × Move Step Tid) :=
      [(0, .step (.call 0 (.malloc 8) (.answering 8192))), (0, .split 0),
        (1, .step (.call 0 (.free 12272) (.answering 0)))]
    Along (familyNext (Program.next c) Program.fork) (familyOk Program.Permits) [.start c] ms ∧
      ∃ R ∈ exec (familyNext (Program.next c) Program.fork) [.start c] ms,
        ∃ call ∈ R.tool.sys.calls, ¬ call.Based :=
  ⟨by decide, by decide⟩

end Heapusage
