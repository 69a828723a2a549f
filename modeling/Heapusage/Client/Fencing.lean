/-
Heapusage.Client.Fencing — which blocks of the program are fenced ones.

§1 Frames — whatever wraps, the user pointer of a fenced block is in the page its
            region starts in, so that two of them differ (`userPtr_ne`).
§2 Regions — the fenced blocks have regions of their own, again whatever wraps
            (`FrameInv`).
§3 Calls  — what a call does to them and returns (`huCall_serves`).
§4 Runs   — the program as the table of the sizes it last asked for
            (`SizingInv`), and when every block of an analysed size is a fenced
            one (`all_fenced_iff`).

`HeapInv` is not enough here: it takes sizes that do not wrap.
-/
import Heapusage.Client.Releases
import Heapusage.Client.Tracking

namespace Heapusage

open Arenas Runs Tables Words

/-! ## §1 Frames -/

/-- `hu_round_up` rounds up modulo the word size. -/
theorem huRoundUp_modEq (n m : Nat) : huRoundUp n m ≡ ceilTo n m [MOD 2 ^ 64] := by
  unfold huRoundUp ceilTo
  by_cases hm : m = 0
  · simp [hm, Nat.ModEq.refl]
  by_cases hrem : n % m = 0
  · simp [hm, hrem, Nat.ModEq.refl]
  simp only [hm, hrem, if_false]
  have hlt : n % m < m := Nat.mod_lt n (Nat.pos_of_ne_zero hm)
  have hback : n + m - n % m + n % m = n + m := Nat.sub_add_cancel (by omega)
  refine Nat.ModEq.add_right_cancel' (n % m) ?_
  calc sub 64 (add 64 n m) (n % m) + n % m ≡ add 64 n m [MOD 2 ^ 64] := sub_add_modEq 64 _ _
    _ ≡ n + m [MOD 2 ^ 64] := Nat.mod_modEq _ _
    _ = n + m - n % m + n % m := hback.symm

/-- The user pointer of a fenced block is less than a page above the start of its
region. -/
theorem userPtr_frame (c : MallocConfig) (n : Nat) {p : Nat} (hp : p < 2 ^ 64)
    (hpage : 0 < c.huPageSize) :
    ∃ d < c.huPageSize, (allocInfoAt c n p).userPtr = (p + d) % 2 ^ 64 := by
  set u := huCalcUserSize n with hu
  set size := huCalcSysSize c u with hsize
  by_cases hpost : c.huOverflow = true ∧ sub 64 (add 64 p size) c.huPageSize ≠ 0
  · have hle := le_ceilTo u c.huPageSize
    have hlt := ceilTo_lt u hpage
    refine ⟨ceilTo u c.huPageSize - u, by omega, ?_⟩
    have hptr : (allocInfoAt c n p).userPtr =
        sub 64 (sub 64 (add 64 p size) c.huPageSize) u := by
      simp [allocInfoAt, ← hu, ← hsize, hpost]
    have hsum : size ≡ ceilTo u c.huPageSize + c.huPageSize [MOD 2 ^ 64] := by
      rw [hsize, huCalcSysSize, if_pos hpost.1]
      exact (Nat.mod_modEq _ _).trans ((huRoundUp_modEq _ _).add_right _)
    have hmod : (allocInfoAt c n p).userPtr + (u + c.huPageSize) ≡
        p + (ceilTo u c.huPageSize - u) + (u + c.huPageSize) [MOD 2 ^ 64] := by
      calc (allocInfoAt c n p).userPtr + (u + c.huPageSize)
          = sub 64 (sub 64 (add 64 p size) c.huPageSize) u + u + c.huPageSize := by
            rw [hptr, Nat.add_assoc]
        _ ≡ sub 64 (add 64 p size) c.huPageSize + c.huPageSize [MOD 2 ^ 64] :=
            (sub_add_modEq 64 _ u).add_right _
        _ ≡ add 64 p size [MOD 2 ^ 64] := sub_add_modEq 64 _ _
        _ ≡ p + size [MOD 2 ^ 64] := Nat.mod_modEq _ _
        _ ≡ p + (ceilTo u c.huPageSize + c.huPageSize) [MOD 2 ^ 64] := hsum.add_left p
        _ = p + (ceilTo u c.huPageSize - u) + (u + c.huPageSize) := by omega
    have hword : (allocInfoAt c n p).userPtr < 2 ^ 64 := by
      rw [hptr]
      exact sub_lt _ _ _
    have hcancel := Nat.ModEq.add_right_cancel' _ hmod
    rwa [Nat.ModEq, Nat.mod_eq_of_lt hword] at hcancel
  · refine ⟨0, hpage, ?_⟩
    have hptr : (allocInfoAt c n p).userPtr = p := by
      cases ho : c.huOverflow with
      | false => simp [allocInfoAt, ho]
      | true =>
        have hzero : sub 64 (add 64 p size) c.huPageSize = 0 :=
          by_contra fun hne => hpost ⟨ho, hne⟩
        simp [allocInfoAt, ← hu, ← hsize, ho, hzero]
    rw [hptr, Nat.add_zero, Nat.mod_eq_of_lt hp]

/-- **Fenced blocks whose regions start at different places have different user
pointers.** -/
theorem userPtr_ne (c : MallocConfig) {n m p r : Nat} (hpos : 0 < p) (hpos' : 0 < r)
    (hp : p < 2 ^ 64) (hr : r < 2 ^ 64) (halign : p % c.huPageSize = 0)
    (halign' : r % c.huPageSize = 0) (hne : p ≠ r) :
    (allocInfoAt c n p).userPtr ≠ (allocInfoAt c m r).userPtr := by
  have hpage : 0 < c.huPageSize := by
    refine Nat.pos_of_ne_zero fun hz => ?_
    rw [hz, Nat.mod_zero] at halign
    omega
  obtain ⟨d, hd, hptr⟩ := userPtr_frame c n hp hpage
  obtain ⟨e, he, hptr'⟩ := userPtr_frame c m hr hpage
  rw [hptr, hptr']
  exact frame_ne (Nat.dvd_of_mod_eq_zero halign) (Nat.dvd_of_mod_eq_zero halign') hpos hpos' hp hr
    hd he hne

/-! ## §2 Regions -/

/-- Every block of the allocator has a live region of its own, and an active one
the user pointer `hu_malloc` computed from where that starts. -/
structure FrameInv (c : MallocConfig) (s : HuState) : Prop where
  inited : s.mal.huMallocInited = true
  owned_live : ∀ b ∈ s.mal.owned, b.region ∈ s.sys.arena.blocks
  owned_nodup : (s.mal.owned.map HuAllocInfo.sysPtr).Nodup
  framed : ∀ k b, s.mal.huActiveAllocs.lookup k = some b →
    b.userPtr = k ∧ b = allocInfoAt c b.userSize b.sysPtr ∧ b.sysPtr % c.huPageSize = 0
  active_addr : ∀ k b, s.mal.huActiveAllocs.lookup k = some b → k ∈ s.mal.huUserAddrs
  null : 0 ∉ s.mal.huActiveAllocs

/-- The pass-through regions not based at `p` are still there. -/
def HuState.KeepsPlain (p : Nat) (s s' : HuState) : Prop :=
  ∀ r ∈ s.sys.arena.blocks, r.tag = .malloc → r.base ≠ p → r ∈ s'.sys.arena.blocks

namespace FrameInv

variable {c : MallocConfig} {s s' : HuState}

/-- The allocator has not moved, and the fenced regions are still there. -/
theorem congr (h : FrameInv c s) (hmal : s'.mal = s.mal)
    (hkept : ∀ r ∈ s.sys.arena.blocks, r.tag = .memalign → r ∈ s'.sys.arena.blocks) :
    FrameInv c s' := by
  constructor
  · rw [hmal, h.inited]
  · rw [hmal]
    exact fun b hb => hkept _ (h.owned_live b hb) rfl
  · rw [hmal]
    exact h.owned_nodup
  · rw [hmal]
    exact h.framed
  · rw [hmal]
    exact h.active_addr
  · rw [hmal]
    exact h.null

/-- A block at a place the system can still hand out has a user pointer of its own. -/
theorem fresh (h : FrameInv c s) {ans : SysAns} {n : Nat} (halign : ans.ptr % c.huPageSize = 0)
    (hr : s.sys.arena.Admits (fencedRegion c ans n)) :
    (allocInfoAt c n ans.ptr).userPtr ∉ s.mal.huActiveAllocs := by
  intro hmem
  obtain ⟨b, hb⟩ := exists_lookup hmem
  obtain ⟨hkey, hinfo, halign'⟩ := h.framed _ b hb
  have hlive := h.owned_live b (MallocState.active_owned hb)
  obtain ⟨hpos, hstop⟩ := s.sys.arena.inside _ hlive
  have hword : b.sysPtr < 2 ^ 64 := b.region.base_lt_stop.trans_le hstop
  have hword' : ans.ptr < 2 ^ 64 := (fencedRegion c ans n).base_lt_stop.trans_le hr.2.1
  have hbase : ans.ptr ≠ b.sysPtr := (hr.2.2 _ hlive).base_ne
  have hne : (allocInfoAt c n ans.ptr).userPtr ≠ (allocInfoAt c b.userSize b.sysPtr).userPtr :=
    userPtr_ne c hr.1 hpos hword' hword halign halign' hbase
  rw [← hinfo, hkey] at hne
  exact hne rfl

/-- A fenced block handed out. -/
theorem fenced (h : FrameInv c s) {ans : SysAns} {n : Nat} (halign : ans.ptr % c.huPageSize = 0)
    (hr : s.sys.arena.Admits (fencedRegion c ans n))
    (hne : (allocInfoAt c n ans.ptr).userPtr ≠ 0) :
    FrameInv c (storeAllocInfo (allocInfoAt c n ans.ptr) (fencedAt c ans n s hr)) := by
  have hnew := h.fresh halign hr
  have hactive := stored_active hr hnew
  refine ⟨?_, stored_live hr hnew h.owned_live, stored_nodup hr hnew h.owned_live h.owned_nodup,
    ?_, stored_addr hr hnew h.active_addr, ?_⟩
  · simp [storeAllocInfo, h.inited]
  · intro k d hk
    rw [hactive, lookup_insert_eq_some] at hk
    rcases hk with ⟨hkb, rfl⟩ | ⟨-, hold⟩
    · exact ⟨hkb.symm, rfl, halign⟩
    · exact h.framed k d hold
  · rw [hactive, AList.mem_insert]
    exact fun hnull => hnull.elim (fun heq => hne heq.symm) h.null

/-- A block leaves the containers and its region goes back to the system. -/
theorem shed (h : FrameInv c s) {b : HuAllocInfo} (howned : s.mal.owned.Perm (b :: s'.mal.owned))
    (hinited : s'.mal.huMallocInited = s.mal.huMallocInited)
    (hactive : ∀ k d, s'.mal.huActiveAllocs.lookup k = some d →
      s.mal.huActiveAllocs.lookup k = some d)
    (haddrs : s'.mal.huUserAddrs = s.mal.huUserAddrs)
    (harena : s'.sys.arena = s.sys.arena.release b.sysPtr) :
    FrameInv c s' ∧ ∀ p, s.KeepsPlain p s' := by
  have hb : b ∈ s.mal.owned := howned.mem_iff.mpr List.mem_cons_self
  obtain ⟨hnodup, hothers⟩ := MallocState.owned_shed howned h.owned_nodup
  refine ⟨⟨hinited.trans h.inited, ?_, hnodup, ?_, ?_, ?_⟩, ?_⟩
  · intro d hd
    obtain ⟨hd, hbase⟩ := hothers d hd
    rw [harena, Arena.mem_release]
    exact ⟨h.owned_live d hd, hbase⟩
  · exact fun k d hk => h.framed k d (hactive k d hk)
  · intro k d hk
    rw [haddrs]
    exact h.active_addr k d (hactive k d hk)
  · intro hmem
    obtain ⟨d, hd⟩ := exists_lookup hmem
    exact h.null (mem_of_lookup (hactive 0 d hd))
  · intro p r hr htag _
    rw [harena, Arena.mem_release]
    have hlive := h.owned_live b hb
    exact ⟨hr, s.sys.arena.base_ne_of_tag_ne hr hlive (by rw [htag]; exact Origin.noConfusion)⟩

theorem sysPtr_ne_zero (h : FrameInv c s) {b : HuAllocInfo} (hb : b ∈ s.mal.owned) :
    b.sysPtr ≠ 0 := s.sys.arena.base_ne_zero (h.owned_live b hb)

theorem recorded (h : FrameInv c s) : s.mal.Recorded where
  addr k hk := by
    obtain ⟨b, hb⟩ := exists_lookup hk
    exact h.active_addr k b hb
  base _ _ hb := h.sysPtr_ne_zero (MallocState.active_owned hb)

theorem evictFront (h : FrameInv c s) (lc : LogConfig) (ans : SysAns) {info : HuAllocInfo}
    {rest : List HuAllocInfo} (hq : s.mal.huQuarantineAllocs = info :: rest) :
    FrameInv c (evictFront c lc ans info s) ∧ ∀ p, s.KeepsPlain p (evictFront c lc ans info s) := by
  have hown : info ∈ s.mal.owned := MallocState.queue_owned (by simp [hq])
  refine h.shed (b := info) ?_ (evictFront_inited ..) (fun _ _ hk => hk) rfl ?_
  · simp only [MallocState.owned, evictFront_active, evictFront_queue, hq, List.tail_cons]
    exact List.perm_middle
  · rw [evictFront_sys, SysHeap.libcFree_of_ne _ (h.sysPtr_ne_zero hown), huMprotect_arena]

/-- An active block joins the queue. -/
theorem enqueued (h : FrameInv c s) (ans : SysAns) {p : Nat} {b : HuAllocInfo}
    (hb : s.mal.huActiveAllocs.lookup p = some b) :
    FrameInv c (enqueued c ans b (s.deactivated p)) ∧
      ∀ a, s.KeepsPlain a (Heapusage.enqueued c ans b (s.deactivated p)) := by
  have harena : (Heapusage.enqueued c ans b (s.deactivated p)).sys.arena = s.sys.arena := by
    simp [Heapusage.enqueued, HuState.deactivated]
  have howned : (Heapusage.enqueued c ans b (s.deactivated p)).mal.owned.Perm s.mal.owned :=
    MallocState.owned_join hb rfl rfl
  refine ⟨⟨h.inited, ?_, (howned.map _).symm.nodup h.owned_nodup, ?_, ?_, ?_⟩, ?_⟩
  · intro d hd
    rw [harena]
    exact h.owned_live d (howned.mem_iff.mp hd)
  · exact fun k d hk => h.framed k d (lookup_erase_eq_some.mp hk).2
  · exact fun k d hk => h.active_addr k d (lookup_erase_eq_some.mp hk).2
  · exact fun hmem => h.null (AList.mem_erase.mp hmem).2
  · intro a r hr _ _
    rw [harena]
    exact hr

/-- `hu_free` of an active block. -/
theorem huFree_active (h : FrameInv c s) (lc : LogConfig) (ans : SysAns) {p : Nat}
    {b : HuAllocInfo} (hb : s.mal.huActiveAllocs.lookup p = some b) :
    FrameInv c (huFree c lc ans p s) ∧ (∀ a, s.KeepsPlain a (huFree c lc ans p s)) ∧
      (huFree c lc ans p s).mal.huActiveAllocs = s.mal.huActiveAllocs.erase p := by
  have hmem := mem_of_lookup hb
  have hown := MallocState.active_owned hb
  have hp : p ≠ 0 := fun h0 => h.null (h0 ▸ hmem)
  have hshrinks : ∀ k d, (s.mal.huActiveAllocs.erase p).lookup k = some d →
      s.mal.huActiveAllocs.lookup k = some d := fun k d hk => (lookup_erase_eq_some.mp hk).2
  rw [huFree_of_active c lc ans h.inited hp (h.active_addr p b hb) hb]
  cases c.huUseafterfree with
  | false =>
    set s' := (huMprotect c ans b.sysPtr b.sysSize .readWrite (s.deactivated p)).libcFree b.sysPtr
    have harena : s'.sys.arena = s.sys.arena.release b.sysPtr := by
      simp [s', HuState.libcFree, HuState.deactivated,
        SysHeap.libcFree_of_ne _ (h.sysPtr_ne_zero hown)]
    have hshed : FrameInv c s' ∧ ∀ a, s.KeepsPlain a s' :=
      h.shed (b := b) ((values_perm_erase hb).append_right _) rfl hshrinks rfl harena
    exact ⟨hshed.1, hshed.2, rfl⟩
  | true =>
    have hqueued := h.enqueued ans hb
    have hloop : FrameInv c (quarantine c lc ans b (s.deactivated p)) ∧
        ∀ a, s.KeepsPlain a (quarantine c lc ans b (s.deactivated p)) := by
      rw [quarantine_eq]
      refine evictLoop_invariant c lc ans
        (P := fun s' => FrameInv c s' ∧ ∀ a, s.KeepsPlain a s') ?_ _ _ rfl hqueued
      intro info rest s' hq hs'
      obtain ⟨hframe, hplain⟩ := hs'.1.evictFront lc ans hq
      refine ⟨hframe, fun a r hr htag hbase => ?_⟩
      exact hplain a r (hs'.2 a r hr htag hbase) htag hbase
    exact ⟨hloop.1, hloop.2, (HeapInv.quarantine_containers c lc ans b _).1⟩

end FrameInv

/-! ## §3 Calls -/

/-- A call that returned `q` and did not fail. -/
structure Serves (c : MallocConfig) (call : Call) (q : Nat) (s s' : HuState) : Prop where
  frames : FrameInv c s'
  plain : s.KeepsPlain call.argument s'
  others : ∀ k, k ≠ call.argument → k ≠ q →
    s'.mal.huActiveAllocs.lookup k = s.mal.huActiveAllocs.lookup k
  /-- a fenced block is recorded under its size, where nothing was recorded -/
  fenced : q ≠ 0 → Enters c s call → q ∉ s.mal.huActiveAllocs ∧
    ∃ b, s'.mal.huActiveAllocs.lookup q = some b ∧ b.userSize = call.requested
  /-- a pass-through block has its region, and no record unless there was one -/
  passed : q ≠ 0 → ¬ Enters c s call →
    (∃ n, (⟨q, n, .malloc⟩ : Region) ∈ s'.sys.arena.blocks) ∧
      (call.argument ∉ s.mal.huActiveAllocs →
        s'.mal.huActiveAllocs.lookup q = s.mal.huActiveAllocs.lookup q)

/-- Nothing these facts are about has changed. -/
theorem Serves.congr {c : MallocConfig} {call : Call} {q : Nat} {s s₁ s₂ : HuState}
    (h : Serves c call q s s₁) (hmal : s₂.mal = s₁.mal) (harena : s₂.sys.arena = s₁.sys.arena) :
    Serves c call q s s₂ where
  frames := h.frames.congr hmal (fun r hr _ => by rwa [harena])
  plain := fun r hr htag hbase => by
    rw [harena]
    exact h.plain r hr htag hbase
  others := by
    rw [hmal]
    exact h.others
  fenced := by
    rw [hmal]
    exact h.fenced
  passed := by
    rw [hmal, harena]
    exact h.passed

/-- A call that returned null. -/
theorem Serves.null {c : MallocConfig} {call : Call} {s s' : HuState} (hframe : FrameInv c s')
    (hplain : s.KeepsPlain call.argument s')
    (hothers : ∀ k, k ≠ call.argument →
      s'.mal.huActiveAllocs.lookup k = s.mal.huActiveAllocs.lookup k) : Serves c call 0 s s' where
  frames := hframe
  plain := hplain
  others := fun k hk _ => hothers k hk
  fenced := fun h0 => absurd rfl h0
  passed := fun h0 => absurd rfl h0

/-- Null, an active block, or a pass-through one. -/
def HuState.Known (p : Nat) (s : HuState) : Prop :=
  p = 0 ∨ p ∈ s.mal.huActiveAllocs ∨ ∃ n, (⟨p, n, .malloc⟩ : Region) ∈ s.sys.arena.blocks

namespace FrameInv

variable {c : MallocConfig} {lc : LogConfig} {ans : SysAns} {s s' : HuState}

/-- A pass-through region handed out. -/
theorem grant (h : FrameInv c s) {call : Call} {n : Nat}
    (hr : s.sys.arena.Admits ⟨ans.ptr, n, .malloc⟩) (hmal : s'.mal = s.mal)
    (harena : s'.sys.arena = s.sys.arena.add _ hr) (henters : ¬ Enters c s call) :
    Serves c call ans.ptr s s' := by
  refine ⟨h.congr hmal ?_, ?_, ?_, fun _ he => absurd he henters, fun _ _ => ⟨⟨n, ?_⟩, ?_⟩⟩
  · intro r hlive _
    simp [harena, hlive]
  · intro r hlive _ _
    simp [harena, hlive]
  · intro k _ _
    rw [hmal]
  · simp [harena]
  · intro _
    rw [hmal]

/-- A call that returned null and changed nothing the invariant looks at. -/
theorem idle (h : FrameInv c s) {call : Call} (hmal : s'.mal = s.mal)
    (harena : s'.sys.arena = s.sys.arena) : Serves c call 0 s s' := by
  refine .null (h.congr hmal ?_) ?_ ?_
  · intro r hlive _
    rwa [harena]
  · intro r hlive _ _
    rwa [harena]
  · intro k _
    rw [hmal]

/-- The pass-through block at `p` goes away. -/
theorem release (h : FrameInv c s) {p n : Nat}
    (hp : (⟨p, n, .malloc⟩ : Region) ∈ s.sys.arena.blocks) (hmal : s'.mal = s.mal)
    (harena : s'.sys.arena = s.sys.arena.release p) : FrameInv c s' ∧ s.KeepsPlain p s' := by
  refine ⟨h.congr hmal ?_, ?_⟩
  · intro r hr htag
    rw [harena, Arena.mem_release]
    exact ⟨hr, s.sys.arena.base_ne_of_tag_ne hr hp (by rw [htag]; exact Origin.noConfusion)⟩
  · intro r hr _ hbase
    rw [harena, Arena.mem_release]
    exact ⟨hr, hbase⟩

/-- `malloc` of the C library. -/
theorem libcMalloc_serves (h : FrameInv c s) {call : Call} {n : Nat} (henters : ¬ Enters c s call) :
    Serves c call (s.libcMalloc ans n).2 s (s.libcMalloc ans n).1 := by
  unfold HuState.libcMalloc
  rcases SysHeap.libcMalloc_cases ans s.sys n with hm | ⟨hr, hm⟩
  · simp only [hm]
    exact h.idle rfl rfl
  · simp only [hm]
    exact h.grant hr rfl rfl henters

/-- A call that is `hu_malloc` of its size. -/
theorem huMalloc_serves (h : FrameInv c s) {call : Call} {n : Nat} (hreq : call.requested = n)
    (harg : call.argument = 0) (hok : ¬ call.Failed (huMalloc c ans n s).2) :
    Serves c call (huMalloc c ans n s).2 s (huMalloc c ans n s).1 := by
  subst hreq
  rcases huMalloc_cases c ans call.requested s with
    ⟨hpass, heq⟩ | ⟨⟨-, hpos, hmin⟩, heq | ⟨halign, hr, heq⟩⟩
  · have hsmall : ¬ Enters c s call := by
      rintro ⟨hpos, hmin, -⟩
      rcases hpass with hp | hp | hp
      · rw [h.inited] at hp
        cases hp
      · omega
      · omega
    rw [heq]
    exact h.libcMalloc_serves hsmall
  · rw [heq] at hok
    exact absurd ⟨hpos.ne', rfl⟩ hok
  · rw [heq] at hok ⊢
    have hne : (allocInfoAt c call.requested ans.ptr).userPtr ≠ 0 := fun h0 => hok ⟨hpos.ne', h0⟩
    have hnew := h.fresh halign hr
    have hactive := stored_active hr hnew
    have henters : Enters c s call := ⟨hpos, hmin, .inl harg⟩
    refine ⟨h.fenced halign hr hne, ?_, ?_, fun _ _ => ?_, fun _ hno => absurd henters hno⟩
    · intro r hlive _ _
      simp [storeAllocInfo, hlive]
    · intro k _ hk
      rw [hactive, AList.lookup_insert_ne hk]
    · rw [hactive]
      exact ⟨hnew, _, AList.lookup_insert _, rfl⟩

/-- A call that is `hu_free` of its argument. -/
theorem huFree_serves (h : FrameInv c s) {call : Call} {p : Nat} (harg : call.argument = p)
    (hgiven : s.Known p) : Serves c call 0 s (huFree c lc ans p s) := by
  subst harg
  rcases huFree_cases c lc ans call.argument s h.inited with ⟨-, heq⟩ | ⟨hne, haddr, heq⟩ |
    ⟨-, -, -, heq⟩ | ⟨-, -, b, hb, -⟩
  · rw [heq]
    exact h.idle rfl rfl
  · have hnot : call.argument ∉ s.mal.huActiveAllocs := by
      intro hmem
      obtain ⟨b, hb⟩ := exists_lookup hmem
      exact haddr (h.active_addr _ b hb)
    obtain ⟨n, hlive⟩ := (hgiven.resolve_left hne).resolve_left hnot
    have harena : (s.libcFree call.argument).sys.arena = s.sys.arena.release call.argument := by
      simp [HuState.libcFree, SysHeap.libcFree_of_ne _ hne]
    obtain ⟨hframe, hplain⟩ : FrameInv c (s.libcFree call.argument) ∧
        s.KeepsPlain call.argument (s.libcFree call.argument) := h.release hlive rfl harena
    rw [heq]
    exact .null hframe hplain fun _ _ => rfl
  · rw [heq]
    exact h.idle rfl rfl
  · obtain ⟨hframe, hplain, hactive⟩ := h.huFree_active lc ans hb
    refine .null hframe (hplain _) fun k hk => ?_
    rw [hactive, AList.lookup_erase_ne hk]

/-- `hu_malloc` leaves an active block active, also where the library puts another
one at its address. -/
theorem huMalloc_lookup (h : FrameInv c s) {p n : Nat} {b : HuAllocInfo}
    (hb : s.mal.huActiveAllocs.lookup p = some b)
    (hm : Serves c (.malloc n) (huMalloc c ans n s).2 s (huMalloc c ans n s).1) :
    (huMalloc c ans n s).1.mal.huActiveAllocs.lookup p = some b := by
  have hp := mem_of_lookup hb
  by_cases hpq : p = (huMalloc c ans n s).2
  · have hq : (huMalloc c ans n s).2 ≠ 0 := fun h0 => h.null ((hpq.trans h0) ▸ hp)
    have hno : ¬ Enters c s (.malloc n) := fun he => (hm.fenced hq he).1 (hpq ▸ hp)
    have hsame := (hm.passed hq hno).2 h.null
    rwa [hpq, hsame, ← hpq]
  · rwa [huMalloc_lookup_ne c ans n s hpq]

/-- `hu_realloc` of an active block. -/
theorem resize_serves (h : FrameInv c s) {p n : Nat} {b : HuAllocInfo}
    (hb : s.mal.huActiveAllocs.lookup p = some b)
    (hok : ¬ (Call.realloc p n).Failed (huMalloc c ans n s).2) :
    Serves c (.realloc p n) (huMalloc c ans n s).2 s
      (huFree c lc ans p (reallocCopied c ans b n s)) := by
  have hp := mem_of_lookup hb
  have hm : Serves c (.malloc n) (huMalloc c ans n s).2 s (huMalloc c ans n s).1 :=
    h.huMalloc_serves rfl rfl hok
  have hactive' := h.huMalloc_lookup hb hm
  have hcopied : FrameInv c (reallocCopied c ans b n s) :=
    ⟨by simpa using h.inited, by simpa using hm.frames.owned_live,
      by simpa using hm.frames.owned_nodup, by simpa using hm.frames.framed,
      by simpa using hm.frames.active_addr, by simpa using hm.frames.null⟩
  obtain ⟨hframe, hplain, hactive⟩ := hcopied.huFree_active lc ans
    (by rwa [reallocCopied_mal])
  rw [reallocCopied_mal] at hactive
  refine ⟨hframe, ?_, ?_, ?_, ?_⟩
  · intro r hr htag hbase
    refine hplain p r ?_ htag hbase
    rw [reallocCopied_arena]
    exact hm.plain r hr htag (s.sys.arena.base_ne_zero hr)
  · intro k hkp hkq
    have hkp : k ≠ p := hkp
    rw [hactive, AList.lookup_erase_ne hkp, huMalloc_lookup_ne c ans n s hkq]
  · intro hq he
    obtain ⟨hnew, d, hd, hsize⟩ := hm.fenced hq ⟨he.1, he.2.1, .inl rfl⟩
    have hqp : (huMalloc c ans n s).2 ≠ p := fun heq => hnew (heq ▸ hp)
    refine ⟨hnew, d, ?_, hsize⟩
    rw [hactive, AList.lookup_erase_ne hqp, hd]
  · intro hq hno
    have hno' : ¬ Enters c s (.malloc n) := fun he => hno ⟨he.1, he.2.1, .inr hp⟩
    obtain ⟨⟨m, hlive⟩, -⟩ := hm.passed hq hno'
    refine ⟨⟨m, hplain 0 _ ?_ rfl hq⟩, fun hnot => absurd hp hnot⟩
    rwa [reallocCopied_arena]

/-- `hu_realloc` of a pass-through block. -/
theorem libcRealloc_serves (h : FrameInv c s) {p n : Nat} (hp : p ≠ 0)
    (hact : p ∉ s.mal.huActiveAllocs) {m : Nat}
    (hlive : (⟨p, m, .malloc⟩ : Region) ∈ s.sys.arena.blocks) :
    Serves c (.realloc p n) (s.libcRealloc ans p n).2 s (s.libcRealloc ans p n).1 := by
  have hno : ¬ Enters c s (.realloc p n) := fun he => he.2.2.elim hp hact
  have hfind : s.sys.arena.find p = some ⟨p, m, .malloc⟩ := s.sys.arena.find_eq_some hlive
  set s₁ : HuState := { s with sys := s.sys.vacated p n } with hs₁
  obtain ⟨hframe, hplain⟩ : FrameInv c s₁ ∧ s.KeepsPlain p s₁ := h.release hlive rfl rfl
  unfold HuState.libcRealloc
  rcases SysHeap.libcRealloc_cases ans s.sys hp hfind n with ⟨-, hr⟩ | ⟨-, hr⟩ | ⟨-, hn, hr⟩
  · simp only [hr]
    exact .null hframe hplain fun _ _ => rfl
  · simp only [hr]
    exact h.idle rfl rfl
  · simp only [hr]
    have hg : Serves c (.realloc p n) ans.ptr s₁
        { s₁ with sys := (s.sys.vacated p n).granted _ (s.sys.reallocFill ans p m) hn } :=
      hframe.grant hn rfl rfl hno
    refine ⟨hg.frames, ?_, hg.others, hg.fenced, hg.passed⟩
    exact fun r hlive htag hbase => hg.plain r (hplain r hlive htag hbase) htag hbase

/-- **A call that does not fail.** -/
theorem huCall_serves (h : FrameInv c s) {call : Call} (hgiven : s.Known call.argument)
    (hok : ¬ call.Failed (huCall c lc ans call s).2) :
    Serves c call (huCall c lc ans call s).2 s (huCall c lc ans call s).1 := by
  cases call with
  | malloc size => exact h.huMalloc_serves rfl rfl hok
  | free p => exact h.huFree_serves rfl hgiven
  | calloc nmemb size =>
    simp only [huCall] at hok ⊢
    rcases huCalloc_cases c ans nmemb size s h.inited with ⟨hz, heq⟩ | ⟨hwrap, heq⟩ |
      ⟨-, -, heq⟩
    · have hno : ¬ Enters c s (.calloc nmemb size) := fun he => absurd hz he.1.ne'
      rw [heq, HuState.libcCalloc]
      rcases SysHeap.libcCalloc_cases ans s.sys nmemb size with hm | ⟨-, hr, hm⟩
      · simp only [hm]
        exact h.idle rfl rfl
      · simp only [hm]
        exact h.grant hr rfl rfl hno
    · have hne : nmemb * size ≠ 0 := by omega
      rw [heq] at hok
      exact absurd ⟨hne, rfl⟩ hok
    · rw [heq] at hok ⊢
      exact (h.huMalloc_serves rfl rfl hok).congr (callocCleared_mal ..) (callocCleared_arena ..)
  | realloc p n =>
    simp only [huCall] at hok ⊢
    rcases huRealloc_cases c lc ans p n s h.inited with ⟨hp, heq⟩ | ⟨hp, hn, heq⟩ |
      ⟨hp, hn, b, hb, heq⟩ | ⟨hp, hn, hb, heq⟩
    · rw [heq] at hok ⊢
      exact h.huMalloc_serves rfl hp hok
    · rw [heq]
      exact h.huFree_serves rfl hgiven
    · rw [heq] at hok ⊢
      exact h.resize_serves hb hok
    · have hact := not_mem_of_lookup_none hb
      obtain ⟨m, hlive⟩ := (hgiven.resolve_left hp).resolve_left hact
      rw [heq]
      exact h.libcRealloc_serves hp hact hlive

end FrameInv

/-! ## §4 Runs -/

/-- The tool with the size last requested at each address the program holds. -/
structure Sizing where
  tool : HuState
  sizes : Table Nat Nat

namespace Sizing

/-- The program after `hu_init`, holding nothing. -/
def init (c : HuConfig) : Sizing := ⟨huInit c, ∅⟩

/-- The sizes after a call that returned `q`: a failed one changes nothing. -/
def after (q : Nat) (t : Table Nat Nat) (call : Call) : Table Nat Nat :=
  if call.Failed q then t
  else if q = 0 then t.erase call.argument
  else (t.erase call.argument).insert q call.requested

/-- What a wrapper does and returns. -/
def result (c : HuConfig) (σ : Sizing) (i : Input) : HuState × Nat :=
  wrapper c i.env .fresh i.call σ.tool

def next (c : HuConfig) (σ : Sizing) (i : Input) : Sizing :=
  ⟨(σ.result c i).1, after (σ.result c i).2 σ.sizes i.call⟩

/-- The program passes on null or an address it holds, and the call does not fail. -/
structure Succeeds (c : HuConfig) (σ : Sizing) (i : Input) : Prop where
  permitted : i.call.argument = 0 ∨ i.call.argument ∈ σ.sizes
  succeeds : ¬ i.call.Failed (σ.result c i).2

instance (c : HuConfig) (σ : Sizing) (i : Input) : Decidable (σ.Succeeds c i) :=
  decidable_of_iff
    ((i.call.argument = 0 ∨ i.call.argument ∈ σ.sizes) ∧ ¬ i.call.Failed (σ.result c i).2)
    ⟨fun ⟨h1, h2⟩ => ⟨h1, h2⟩, fun h => ⟨h.1, h.2⟩⟩

/-- Every block of an analysed size is recorded under its user pointer and size. -/
def AllFenced (c : HuConfig) (σ : Sizing) : Prop :=
  ∀ p n, σ.sizes.lookup p = some n → 0 < n → c.huMinsize ≤ n →
    ∃ b, σ.tool.mal.huActiveAllocs.lookup p = some b ∧ b.userPtr = p ∧ b.userSize = n

/-- A block that is given an analysed size is a fenced one already. Or the system
offers an address that is recorded under just this size, which takes a size that
wraps. -/
def ResizesFenced (c : HuConfig) (σ : Sizing) (i : Input) : Prop :=
  i.call.argument ≠ 0 → 0 < i.call.requested → c.huMinsize ≤ i.call.requested →
    i.call.argument ∈ σ.tool.mal.huActiveAllocs ∨
      (σ.tool.mal.huActiveAllocs.lookup i.env.ans.ptr).map HuAllocInfo.userSize =
        some i.call.requested

instance (c : HuConfig) (σ : Sizing) (i : Input) : Decidable (σ.ResizesFenced c i) :=
  inferInstanceAs (Decidable (_ → _ → _ → _ ∨ _))

end Sizing

/-- What the program holds the tool knows: null, fenced blocks and pass-through ones. -/
structure SizingInv (c : HuConfig) (σ : Sizing) : Prop where
  frames : FrameInv c.mallocConfig σ.tool
  plain : ∀ p ∈ σ.sizes, p ∉ σ.tool.mal.huActiveAllocs →
    ∃ n, (⟨p, n, .malloc⟩ : Region) ∈ σ.tool.sys.arena.blocks

namespace SizingInv

variable {c : HuConfig} {σ : Sizing} {i : Input}

theorem init (hon : c.huEnableHumalloc = true) : SizingInv c (.init c) := by
  have howned : (huInit c).mal.owned = [] := by simp [MallocState.owned]
  have hinited : (huInit c).mal.huMallocInited = true := by rw [huInit_inited, hon]
  refine ⟨⟨hinited, ?_, ?_, ?_, ?_, ?_⟩, ?_⟩
  · simp [Sizing.init, howned]
  · simp [Sizing.init, howned]
  · simp [Sizing.init]
  · simp [Sizing.init]
  · simp [Sizing.init]
  · simp [Sizing.init]

/-- What the program passes on from its account is known to the tool. -/
theorem known (h : SizingInv c σ) {p : Nat} (hp : p = 0 ∨ p ∈ σ.sizes) : σ.tool.Known p := by
  rcases hp with h0 | hmem
  · exact .inl h0
  · by_cases hact : p ∈ σ.tool.mal.huActiveAllocs
    · exact .inr (.inl hact)
    · exact .inr (.inr (h.plain _ hmem hact))

/-- A step, seen from the allocator. -/
theorem serves (h : SizingInv c σ) (hon : c.huEnableHumalloc = true) (hi : σ.Succeeds c i) :
    Serves c.mallocConfig i.call (σ.result c i).2 σ.tool (σ.next c i).tool := by
  have hresult : (σ.result c i).2 =
      (huCall c.mallocConfig c.logConfig i.env.ans i.call σ.tool).2 :=
    fenced_result hon i.env i.call σ.tool
  have hmal : (σ.next c i).tool.mal =
      (huCall c.mallocConfig c.logConfig i.env.ans i.call σ.tool).1.mal :=
    fenced_mal hon i.env i.call σ.tool
  have hsys : (σ.next c i).tool.sys =
      (huCall c.mallocConfig c.logConfig i.env.ans i.call σ.tool).1.sys :=
    fenced_sys hon i.env i.call σ.tool
  have hok := hi.succeeds
  rw [hresult] at hok ⊢
  exact (h.frames.huCall_serves (h.known hi.permitted) hok).congr hmal
    (congrArg SysHeap.arena hsys)

/-- Null is no block. -/
theorem null_not_held (h : SizingInv c σ) : 0 ∉ σ.sizes := by
  intro hmem
  obtain ⟨n, hlive⟩ := h.plain 0 hmem h.frames.null
  exact σ.tool.sys.arena.base_ne_zero hlive rfl

/-- What the program holds after a call: the block returned, and the blocks it held
without the one given up. -/
theorem held_next (h : SizingInv c σ) (hi : σ.Succeeds c i) {k n : Nat}
    (hk : (σ.next c i).sizes.lookup k = some n) :
    (k = (σ.result c i).2 ∧ (σ.result c i).2 ≠ 0 ∧ n = i.call.requested) ∨
      (k ≠ (σ.result c i).2 ∧ k ≠ i.call.argument ∧ σ.sizes.lookup k = some n) := by
  simp only [Sizing.next, Sizing.after, if_neg hi.succeeds] at hk
  by_cases hq : (σ.result c i).2 = 0
  · rw [if_pos hq, lookup_erase_eq_some] at hk
    refine .inr ⟨?_, hk⟩
    rw [hq]
    rintro rfl
    exact h.null_not_held (mem_of_lookup hk.2)
  · rw [if_neg hq, lookup_insert_eq_some, lookup_erase_eq_some] at hk
    rcases hk with ⟨hkq, hn⟩ | hold
    · exact .inl ⟨hkq, hq, hn.symm⟩
    · exact .inr hold

theorem next (h : SizingInv c σ) (hon : c.huEnableHumalloc = true) (hi : σ.Succeeds c i) :
    SizingInv c (σ.next c i) := by
  have hserves := h.serves hon hi
  refine ⟨hserves.frames, ?_⟩
  intro k hk hact
  obtain ⟨n, hn⟩ := exists_lookup hk
  rcases h.held_next hi hn with ⟨rfl, hq, -⟩ | ⟨hkq, hka, hold⟩
  · have hno : ¬ Enters c.mallocConfig σ.tool i.call := by
      intro he
      obtain ⟨-, b, hb, -⟩ := hserves.fenced hq he
      exact hact (mem_of_lookup hb)
    exact (hserves.passed hq hno).1
  · have hact' : k ∉ σ.tool.mal.huActiveAllocs := by
      rwa [← AList.lookup_eq_none, ← hserves.others k hka hkq, AList.lookup_eq_none]
    obtain ⟨m, hlive⟩ := h.plain k (mem_of_lookup hold) hact'
    exact ⟨m, hserves.plain _ hlive rfl hka⟩

end SizingInv

/-- The invariant of a run that keeps to the condition. -/
structure FencingInv (c : HuConfig) (σ : Sizing) : Prop extends SizingInv c σ where
  fenced : σ.AllFenced c

namespace FencingInv

variable {c : HuConfig} {σ : Sizing} {i : Input}

theorem init (hon : c.huEnableHumalloc = true) : FencingInv c (.init c) where
  toSizingInv := .init hon
  fenced := by simp [Sizing.AllFenced, Sizing.init]

/-- The block returned is held under its size. -/
theorem returned_next (hi : σ.Succeeds c i) (hq : (σ.result c i).2 ≠ 0) :
    (σ.next c i).sizes.lookup (σ.result c i).2 = some i.call.requested := by
  simp only [Sizing.next, Sizing.after, if_neg hi.succeeds, if_neg hq]
  exact AList.lookup_insert _

/-- A block that is not fenced is resized by the C library. -/
theorem answered (h : FencingInv c σ) (hon : c.huEnableHumalloc = true) (hi : σ.Succeeds c i)
    (hne : i.call.argument ≠ 0) (hpos : 0 < i.call.requested)
    (hact : i.call.argument ∉ σ.tool.mal.huActiveAllocs) :
    (σ.result c i).2 ≠ 0 ∧ (σ.result c i).2 = i.env.ans.ptr := by
  have hq : (σ.result c i).2 ≠ 0 := fun h0 => hi.succeeds ⟨hpos.ne', h0⟩
  have hresult : (σ.result c i).2 =
      (huCall c.mallocConfig c.logConfig i.env.ans i.call σ.tool).2 :=
    fenced_result hon i.env i.call σ.tool
  refine ⟨hq, ?_⟩
  rw [hresult] at hq ⊢
  exact (huCall_answer c.mallocConfig c.logConfig i.env.ans h.frames.inited hpos hne
    hact).resolve_left hq

/-- **A call keeps every block fenced exactly if it keeps to the condition.** -/
theorem next_fenced_iff (h : FencingInv c σ) (hon : c.huEnableHumalloc = true)
    (hi : σ.Succeeds c i) : (σ.next c i).AllFenced c ↔ σ.ResizesFenced c i := by
  have hserves := h.toSizingInv.serves hon hi
  constructor
  · intro hall hne hpos hmin
    by_cases hact : i.call.argument ∈ σ.tool.mal.huActiveAllocs
    · exact .inl hact
    · obtain ⟨hq, hans⟩ := h.answered hon hi hne hpos hact
      obtain ⟨b, hb, -, hsize⟩ := hall _ _ (returned_next hi hq) hpos hmin
      have hno : ¬ Enters c.mallocConfig σ.tool i.call := fun he => he.2.2.elim hne hact
      rw [(hserves.passed hq hno).2 hact, hans] at hb
      rw [hb, Option.map_some, hsize]
      exact .inr rfl
  · intro hresizes k n hk hpos hmin
    rcases h.toSizingInv.held_next hi hk with ⟨rfl, hq, rfl⟩ | ⟨hkq, hka, hold⟩
    · have hrecorded : ∃ b, (σ.next c i).tool.mal.huActiveAllocs.lookup (σ.result c i).2 = some b ∧
          b.userSize = i.call.requested := by
        by_cases he : Enters c.mallocConfig σ.tool i.call
        · exact (hserves.fenced hq he).2
        · have hne : i.call.argument ≠ 0 := fun h0 => he ⟨hpos, hmin, .inl h0⟩
          have hact : i.call.argument ∉ σ.tool.mal.huActiveAllocs :=
            fun hmem => he ⟨hpos, hmin, .inr hmem⟩
          obtain ⟨-, hans⟩ := h.answered hon hi hne hpos hact
          have hsame := (hresizes hne hpos hmin).resolve_left hact
          rw [(hserves.passed hq he).2 hact, hans]
          exact Option.map_eq_some_iff.mp hsame
      obtain ⟨b, hb, hsize⟩ := hrecorded
      exact ⟨b, hb, (hserves.frames.framed _ b hb).1, hsize⟩
    · rw [hserves.others k hka hkq]
      exact h.fenced k n hold hpos hmin

theorem next (h : FencingInv c σ) (hon : c.huEnableHumalloc = true) (hi : σ.Succeeds c i)
    (hresizes : σ.ResizesFenced c i) : FencingInv c (σ.next c i) where
  toSizingInv := h.toSizingInv.next hon hi
  fenced := (h.next_fenced_iff hon hi).mpr hresizes

end FencingInv

/-- **Every block of an analysed size is a fenced one, exactly as long as no
pass-through block is given an analysed size**: every minimum size, every page
size, every run of calls that do not fail, sizes that wrap included. -/
theorem all_fenced_iff (c : HuConfig) (hon : c.huEnableHumalloc = true) (is : List Input)
    (hrun : Along (Sizing.next c) (Sizing.Succeeds c) (.init c) is) :
    Along (Sizing.next c) (fun σ i => (σ.next c i).AllFenced c) (.init c) is ↔
      Along (Sizing.next c) (Sizing.ResizesFenced c) (.init c) is := by
  have hstep : ∀ σ i, FencingInv c σ → σ.Succeeds c i → σ.ResizesFenced c i →
      FencingInv c (σ.next c i) := fun _ _ h hi hresizes => h.next hon hi hresizes
  have hiff : ∀ σ i, FencingInv c σ → σ.Succeeds c i →
      ((σ.next c i).AllFenced c ↔ σ.ResizesFenced c i) :=
    fun _ _ h hi => h.next_fenced_iff hon hi
  exact Along.exact hstep hiff is _ (FencingInv.init hon) hrun

/-- A fenced block shrinks below the minimum size and is given up, another grows. -/
theorem all_fenced_shrunk :
    let c := HuConfig.tools false true true 8
    let is : List Input := [⟨.malloc 8, .answering 8192⟩, ⟨.malloc 100, .answering 16384⟩,
      ⟨.realloc 12272 4, .answering 64⟩, ⟨.realloc 20368 200, .answering 32768⟩,
      ⟨.realloc 64 5, .answering 128⟩, ⟨.free 128, .answering 0⟩]
    Along (Sizing.next c) (fun σ i => (σ.next c i).AllFenced c) (.init c) is := by
  intro c is
  exact (all_fenced_iff c rfl is (by decide)).mpr (by decide)

/-- Four bytes below the minimum of eight, grown to a hundred: the block has no
record and no fence. -/
theorem grown_block_unfenced :
    let c := HuConfig.tools false true true 8
    let is : List Input := [⟨.malloc 4, .answering 64⟩, ⟨.realloc 64 100, .answering 128⟩]
    let σ := exec (Sizing.next c) (.init c) is
    Along (Sizing.next c) (Sizing.Succeeds c) (.init c) is ∧
      σ.sizes.lookup 128 = some 100 ∧ 128 ∉ σ.tool.mal.huActiveAllocs ∧ ¬ σ.AllFenced c := by
  intro c is σ
  have hsize : σ.sizes.lookup 128 = some 100 := by decide
  have hnone : 128 ∉ σ.tool.mal.huActiveAllocs := by decide
  refine ⟨by decide, hsize, hnone, fun hall => ?_⟩
  obtain ⟨b, hb, -⟩ := hall 128 100 hsize (by decide) (by decide)
  exact hnone (mem_of_lookup hb)

end Heapusage
