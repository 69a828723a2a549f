/-
Heapusage.Client.Protection — what a failed `mprotect` costs.

When the kernel refuses, `hu_mprotect` prints a message and goes on, unless it was called
more than `max_map_count / 2` times: then it ends the process with `exit(1)`. The
refinement of `Client.Refinement` is for a kernel that obeys. Here the kernel may refuse
to take away access, to a fence or to a block in the quarantine, as long as
`hu_mprotect` does not give up, and only has to give it back when asked: the program
still has its C heap (`refused_protection_harmless`).

A run of the tool is compared with the run in which the kernel obeys. The two make the
same steps and differ in the pages alone, of which the real run allows more
(`HuState.Shadows`).

§1 Heaps alike. §2 One lemma for each function of `humalloc.cpp`. §3 Runs.
-/
import Heapusage.Client.Refinement

namespace Heapusage

open Arenas CHeaps Runs Tables

/-! ## §1 Heaps alike -/

/-- The same answers from a kernel that obeys. -/
def SysAns.obeyed (ans : SysAns) : SysAns := { ans with mprotectOk := fun _ _ _ => true }

namespace SysHeap

/-- Other pages and another history. -/
def repaged (prot : Nat → Prot) (calls : List SysCall) (h : SysHeap) : SysHeap :=
  { h with prot := prot, calls := calls }

/-- The heap `h` is `h'` but for the history and for pages `h'` does not allow. -/
structure Shadows (h h' : SysHeap) : Prop where
  same : h = h'.repaged h.prot h.calls
  allows : ∀ a, h'.prot a = .readWrite → h.prot a = .readWrite

theorem grant_repaged (r : Region) (fill : Nat → UInt8) (f : Nat → Prot) (k : List SysCall)
    (h : SysHeap) : (h.repaged f k).grant r fill = (h.grant r fill).map (repaged f k) := by
  unfold grant
  by_cases hr : h.arena.Admits r
  · have hr' : (h.repaged f k).arena.Admits r := hr
    rw [dif_pos hr, dif_pos hr']
    rfl
  · have hr' : ¬ (h.repaged f k).arena.Admits r := hr
    rw [dif_neg hr, dif_neg hr']
    rfl

/-- What a function of the C library returns on heaps alike. -/
structure Alike (r r' : SysHeap × Nat) : Prop where
  heap : r.1.Shadows r'.1
  answer : r.2 = r'.2

section Functions

variable {h h' e e' : SysHeap} {ans : SysAns}

theorem Shadows.refl (h : SysHeap) : h.Shadows h := ⟨rfl, fun _ ha => ha⟩

theorem Shadows.arena (hs : h.Shadows h') : h.arena = h'.arena := by rw [hs.same]; rfl

theorem Shadows.mem (hs : h.Shadows h') : h.mem = h'.mem := by rw [hs.same]; rfl

/-- The same grant on both. -/
theorem Shadows.grant_cases (hs : h.Shadows h') (r : Region) (fill : Nat → UInt8) :
    (h.grant r fill = none ∧ h'.grant r fill = none) ∨
      ∃ g g', h.grant r fill = some g ∧ h'.grant r fill = some g' ∧ g.Shadows g' := by
  have hgrant : h.grant r fill = (h'.grant r fill).map (repaged h.prot h.calls) := by
    rw [← grant_repaged, ← hs.same]
  rw [hgrant]
  cases hg : h'.grant r fill with
  | none => exact .inl ⟨rfl, rfl⟩
  | some g =>
    have hprot : g.prot = h'.prot := by
      unfold SysHeap.grant at hg
      split at hg
      · cases hg
        rfl
      · cases hg
    exact .inr ⟨_, g, rfl, rfl, rfl, fun a ha => hs.allows a (hprot ▸ ha)⟩

/-- An answer with the grant, or with the heaps `e` and `e'` without one. -/
theorem Shadows.grant (hs : h.Shadows h') (he : e.Shadows e') (r : Region) (fill : Nat → UInt8)
    (q : Nat) : Alike (match h.grant r fill with | some g => (g, q) | none => (e, 0))
      (match h'.grant r fill with | some g => (g, q) | none => (e', 0)) := by
  rcases hs.grant_cases r fill with ⟨hg, hg'⟩ | ⟨g, g', hg, hg', halike⟩ <;> rw [hg, hg']
  · exact ⟨he, rfl⟩
  · exact ⟨halike, rfl⟩

theorem Shadows.libcMalloc (hs : h.Shadows h') (n : Nat) :
    Alike (h.libcMalloc ans n) (h'.libcMalloc ans.obeyed n) :=
  hs.grant hs ⟨ans.ptr, n, .malloc⟩ ans.fill ans.ptr

theorem Shadows.libcCalloc (hs : h.Shadows h') (m n : Nat) :
    Alike (h.libcCalloc ans m n) (h'.libcCalloc ans.obeyed m n) := by
  unfold SysHeap.libcCalloc
  split
  · exact hs.grant hs ⟨ans.ptr, m * n, .malloc⟩ (fun _ => 0) ans.ptr
  · exact ⟨hs, rfl⟩

theorem Shadows.libcFree (hs : h.Shadows h') (p : Nat) :
    (h.libcFree p).Shadows (h'.libcFree p) := by
  unfold SysHeap.libcFree
  split
  · exact hs
  · refine ⟨?_, hs.allows⟩
    simp only [repaged, hs.arena, hs.mem]

theorem Shadows.vacated (hs : h.Shadows h') (p n : Nat) :
    (h.vacated p n).Shadows (h'.vacated p n) := by
  refine ⟨?_, hs.allows⟩
  simp only [SysHeap.vacated, recorded, repaged, hs.arena, hs.mem]

theorem Shadows.recorded (hs : h.Shadows h') (p n : Nat) :
    (h.recorded p n).Shadows (h'.recorded p n) := by
  refine ⟨?_, hs.allows⟩
  simp only [SysHeap.recorded, repaged, hs.arena, hs.mem]

theorem Shadows.libcRealloc (hs : h.Shadows h') (p n : Nat) :
    Alike (h.libcRealloc ans p n) (h'.libcRealloc ans.obeyed p n) := by
  unfold SysHeap.libcRealloc
  split
  · exact hs.libcMalloc n
  · rw [hs.arena]
    cases h'.arena.find p with
    | none => exact ⟨hs.recorded p n, rfl⟩
    | some r =>
      simp only
      split
      · exact ⟨hs.vacated p n, rfl⟩
      · have hfill : h.reallocFill ans p r.size = h'.reallocFill ans p r.size := by
          unfold reallocFill
          rw [hs.mem]
        rw [hfill]
        exact (hs.vacated p n).grant (hs.recorded p n) ⟨ans.ptr, n, .malloc⟩ _ ans.ptr

theorem Shadows.posixMemalign (hs : h.Shadows h') (align n : Nat) :
    Alike (h.posixMemalign ans align n) (h'.posixMemalign ans.obeyed align n) := by
  have hobeyed : h'.posixMemalign ans.obeyed align n = h'.posixMemalign ans align n := rfl
  rw [hobeyed]
  unfold SysHeap.posixMemalign
  split
  · rcases hs.grant_cases ⟨ans.ptr, n, .memalign⟩ ans.fill with ⟨hg, hg'⟩ |
      ⟨g, g', hg, hg', halike⟩ <;> rw [hg, hg']
    · exact ⟨hs, rfl⟩
    · refine ⟨⟨?_, halike.allows⟩, rfl⟩
      simp only [repaged, halike.arena, halike.mem]
  · exact ⟨hs, rfl⟩

/-- A refusal to take access away leaves the real pages the more open ones. -/
theorem Shadows.mprotect_none (hs : h.Shadows h') (addr len : Nat) :
    (h.mprotect ans addr len .none).1.Shadows (h'.mprotect ans.obeyed addr len .none).1 := by
  have hrange : ∀ a, (h'.mprotect ans.obeyed addr len .none).1.prot a = .readWrite →
      ¬ (addr ≤ a ∧ a < addr + len) ∧ h'.prot a = .readWrite := by
    intro a ha
    simp only [SysHeap.mprotect, SysAns.obeyed, if_true] at ha
    split at ha
    · cases ha
    · rename_i hout
      exact ⟨hout, ha⟩
  unfold SysHeap.mprotect at hrange ⊢
  split
  · refine ⟨by simp only [repaged, hs.arena, hs.mem, SysAns.obeyed, if_true], fun a ha => ?_⟩
    obtain ⟨hout, hprot⟩ := hrange a ha
    exact (if_neg hout).trans (hs.allows a hprot)
  · refine ⟨?_, fun a ha => hs.allows a (hrange a ha).2⟩
    rw [hs.same]
    rfl

/-- Access that is given back is given back on both. -/
theorem Shadows.mprotect_readWrite (hs : h.Shadows h') (addr len : Nat)
    (hok : ans.mprotectOk addr len .readWrite = true) :
    (h.mprotect ans addr len .readWrite).1.Shadows
      (h'.mprotect ans.obeyed addr len .readWrite).1 := by
  unfold SysHeap.mprotect
  rw [if_pos hok]
  refine ⟨by simp only [repaged, hs.arena, hs.mem, SysAns.obeyed, if_true], fun a ha => ?_⟩
  simp only [SysAns.obeyed, if_true] at ha ⊢
  split
  · rfl
  · rename_i hout
    rw [if_neg hout] at ha
    exact hs.allows a ha

theorem Shadows.memset (hs : h.Shadows h') (p : Nat) (v : UInt8) (n : Nat) :
    (h.memset p v n).Shadows (h'.memset p v n) := by
  refine ⟨?_, hs.allows⟩
  simp only [SysHeap.memset, repaged, hs.arena, hs.mem]

theorem Shadows.memcpy (hs : h.Shadows h') (dst src n : Nat) :
    (h.memcpy dst src n).Shadows (h'.memcpy dst src n) := by
  refine ⟨?_, hs.allows⟩
  simp only [SysHeap.memcpy, repaged, hs.arena, hs.mem]

theorem Shadows.store (hs : h.Shadows h') (a : Nat) (v : UInt8) :
    (h.store a v).Shadows (h'.store a v) := by
  refine ⟨?_, hs.allows⟩
  simp only [SysHeap.store, repaged, hs.arena, hs.mem]

end Functions

end SysHeap

/-! ## §2 The allocator -/

/-- The state `s` is `s'` but for its pages, the history of calls and a request to exit. -/
structure HuState.Shadows (s s' : HuState) : Prop where
  sys : s.sys.Shadows s'.sys
  mal : ∃ exit, s.mal = { s'.mal with exitRequested := exit }
  log : s.log = s'.log

/-- Two calls that return the same pointer, in states alike. -/
structure ResultsAlike (r r' : HuState × Nat) : Prop where
  state : r.1.Shadows r'.1
  answer : r.2 = r'.2

/-- The kernel gives access back when it is asked to. -/
def SysAns.Unprotects (ans : SysAns) : Prop :=
  ∀ addr len, ans.mprotectOk addr len .readWrite = true

namespace HuState.Shadows

variable {s s' : HuState} {ans : SysAns} (c : MallocConfig) (lc : LogConfig)

theorem refl (s : HuState) : s.Shadows s := ⟨.refl _, ⟨_, rfl⟩, rfl⟩

theorem inited (h : s.Shadows s') : s.mal.huMallocInited = s'.mal.huMallocInited := by
  obtain ⟨exit, hmal⟩ := h.mal
  rw [hmal]

theorem lookup (h : s.Shadows s') (p : Nat) :
    huGetAllocinfo p s.mal = huGetAllocinfo p s'.mal := by
  obtain ⟨exit, hmal⟩ := h.mal
  rw [hmal]
  rfl

theorem queue (h : s.Shadows s') : s.mal.huQuarantineAllocs = s'.mal.huQuarantineAllocs := by
  obtain ⟨exit, hmal⟩ := h.mal
  rw [hmal]

/-- The same change of the tables on both. -/
theorem onMal (h : s.Shadows s') {f : MallocState → MallocState}
    (hf : ∀ m exit, ∃ exit', f { m with exitRequested := exit } =
      { f m with exitRequested := exit' }) :
    Shadows { s with mal := f s.mal } { s' with mal := f s'.mal } := by
  obtain ⟨exit, hmal⟩ := h.mal
  exact ⟨h.sys, hmal ▸ hf s'.mal exit, h.log⟩

theorem onSys (h : s.Shadows s') {r r' : SysHeap × Nat} (hr : SysHeap.Alike r r') :
    ResultsAlike ({ s with sys := r.1 }, r.2) ({ s' with sys := r'.1 }, r'.2) :=
  ⟨⟨hr.heap, h.mal, h.log⟩, hr.answer⟩

theorem libcFree (h : s.Shadows s') (p : Nat) : (s.libcFree p).Shadows (s'.libcFree p) :=
  ⟨h.sys.libcFree p, h.mal, h.log⟩

/-- `hu_mprotect`, with the kernel's answer for the pages. -/
theorem huMprotect (h : s.Shadows s') {addr len : Nat} {prot : Prot}
    (hsys : (s.sys.mprotect ans addr len prot).1.Shadows
      (s'.sys.mprotect ans.obeyed addr len prot).1) :
    (huMprotect c ans addr len prot s).Shadows (huMprotect c ans.obeyed addr len prot s') := by
  obtain ⟨exit, hmal⟩ := h.mal
  refine ⟨hsys, ?_, h.log⟩
  simp only [Heapusage.huMprotect, hmal]
  exact ⟨_, rfl⟩

theorem storeAllocInfo (h : s.Shadows s') (info : HuAllocInfo) :
    (storeAllocInfo info s).Shadows (storeAllocInfo info s') :=
  h.onMal (f := fun m => { m with
    huActiveAllocs := insertNew info.userPtr info m.huActiveAllocs
    huUserAddrs := insert info.userPtr m.huUserAddrs }) fun _ exit => ⟨exit, rfl⟩

/-- `hu_malloc` -/
theorem huMalloc (h : s.Shadows s') (n : Nat) :
    ResultsAlike (huMalloc c ans n s) (huMalloc c ans.obeyed n s') := by
  unfold Heapusage.huMalloc
  rw [h.inited]
  split
  · exact h.onSys (h.sys.libcMalloc n)
  · split
    · exact h.onSys (h.sys.libcMalloc n)
    · split
      · exact h.onSys (h.sys.libcMalloc n)
      · have hr : SysHeap.Alike (s.sys.posixMemalign ans _ _) _ :=
          h.sys.posixMemalign c.huPageSize (huCalcSysSize c (huCalcUserSize n))
        have hs := h.onSys hr
        simp only [hr.answer]
        split
        · exact ⟨hs.state, rfl⟩
        · refine ⟨storeAllocInfo ?_ _, rfl⟩
          split
          · exact hs.state.huMprotect c (hs.state.sys.mprotect_none _ _)
          · exact hs.state

section Releases

variable (hok : ans.Unprotects)
include hok

/-- Access to a region is given back, and the region goes back to the system. -/
theorem returned (h : s.Shadows s') (info : HuAllocInfo) :
    ((Heapusage.huMprotect c ans info.sysPtr info.sysSize .readWrite s).libcFree info.sysPtr).Shadows
      ((Heapusage.huMprotect c ans.obeyed info.sysPtr info.sysSize .readWrite s').libcFree
        info.sysPtr) :=
  (h.huMprotect c (h.sys.mprotect_readWrite _ _ (hok _ _))).libcFree info.sysPtr

theorem evictFront (h : s.Shadows s') (info : HuAllocInfo) :
    (evictFront c lc ans info s).Shadows (evictFront c lc ans.obeyed info s') := by
  have htaken := h.onMal (f := fun m => { m with
    huQuarantineEvicted := true
    huQuarantineAllocs := m.huQuarantineAllocs.tail }) fun _ exit => ⟨exit, rfl⟩
  have hopened := htaken.huMprotect c
    (htaken.sys.mprotect_readWrite info.sysPtr info.sysSize (hok _ _))
  have hcounted := hopened.onMal (f := fun m => { m with
    huQuarantineSize := Words.sub 64 m.huQuarantineSize info.sysSize }) fun _ exit => ⟨exit, rfl⟩
  have hfreed := hcounted.libcFree info.sysPtr
  exact ⟨hfreed.sys, hfreed.mal, congrArg (huLogRemoveFreedAllocation lc info.userPtr) hfreed.log⟩

theorem evictLoop (q : List HuAllocInfo) : ∀ {s s' : HuState}, s.Shadows s' →
    (evictLoop c lc ans q s).Shadows (evictLoop c lc ans.obeyed q s') := by
  induction q with
  | nil => exact fun h => h
  | cons info rest ih =>
    intro s s' h
    have hsize : s.mal.huQuarantineSize = s'.mal.huQuarantineSize := by
      obtain ⟨exit, hmal⟩ := h.mal
      rw [hmal]
    unfold Heapusage.evictLoop
    rw [hsize]
    split
    · exact ih (evictFront c lc hok h info)
    · exact h

/-- The loop goes through the queue it finds, the same on both. -/
theorem evictLoop_of_queue {q q' : List HuAllocInfo} (hq : q = q') (h : s.Shadows s') :
    (Heapusage.evictLoop c lc ans q s).Shadows (Heapusage.evictLoop c lc ans.obeyed q' s') := by
  rw [← hq]
  exact evictLoop c lc hok q h

theorem quarantine (h : s.Shadows s') (info : HuAllocInfo) :
    (quarantine c lc ans info s).Shadows (quarantine c lc ans.obeyed info s') := by
  have hclosed : (Heapusage.huMprotect c ans info.sysPtr info.sysSize .none s).Shadows _ :=
    h.huMprotect c (h.sys.mprotect_none info.sysPtr info.sysSize)
  have hqueued := hclosed.onMal (f := fun m => { m with
    huQuarantineAllocs := m.huQuarantineAllocs ++ [info]
    huQuarantineSize := Words.add 64 m.huQuarantineSize info.sysSize }) fun _ exit => ⟨exit, rfl⟩
  exact evictLoop_of_queue c lc hok hqueued.queue hqueued

/-- `hu_free` -/
theorem huFree (h : s.Shadows s') (p : Nat) :
    (huFree c lc ans p s).Shadows (huFree c lc ans.obeyed p s') := by
  have haddrs : s.mal.huUserAddrs = s'.mal.huUserAddrs := by
    obtain ⟨exit, hmal⟩ := h.mal
    rw [hmal]
  unfold Heapusage.huFree
  rw [h.inited, haddrs, h.lookup]
  split
  · exact h.libcFree p
  · split
    · exact h
    · split
      · exact h.libcFree p
      · cases huGetAllocinfo p s'.mal with
        | none => exact h
        | some info =>
          have herased := h.onMal (f := fun m =>
            { m with huActiveAllocs := m.huActiveAllocs.erase p }) fun _ exit => ⟨exit, rfl⟩
          simp only
          split
          · exact quarantine c lc hok herased info
          · exact returned c hok herased info

end Releases

/-- `hu_calloc` -/
theorem huCalloc (h : s.Shadows s') (m n : Nat) :
    ResultsAlike (huCalloc c ans m n s) (huCalloc c ans.obeyed m n s') := by
  unfold Heapusage.huCalloc
  rw [h.inited]
  split
  · exact h.onSys (h.sys.libcCalloc m n)
  · split
    · exact h.onSys (h.sys.libcCalloc m n)
    · simp only
      split
      · exact ⟨h, rfl⟩
      · have hr : ResultsAlike (Heapusage.huMalloc c ans _ s) _ :=
          h.huMalloc c (Words.mul 64 m n)
        simp only [hr.answer]
        split
        · exact ⟨⟨hr.state.sys.memset _ 0 _, hr.state.mal, hr.state.log⟩, rfl⟩
        · exact hr

/-- `hu_realloc` -/
theorem huRealloc (hok : ans.Unprotects) (h : s.Shadows s') (p n : Nat) :
    ResultsAlike (huRealloc c lc ans p n s) (huRealloc c lc ans.obeyed p n s') := by
  unfold Heapusage.huRealloc
  rw [h.inited, h.lookup]
  split
  · exact h.onSys (h.sys.libcRealloc p n)
  · split
    · exact h.huMalloc c n
    · split
      · exact ⟨h.huFree c lc hok p, rfl⟩
      · cases huGetAllocinfo p s'.mal with
        | none => exact h.onSys (h.sys.libcRealloc p n)
        | some info =>
          have hr : ResultsAlike (Heapusage.huMalloc c ans n s) _ := h.huMalloc c n
          simp only [hr.answer]
          split
          · refine ⟨huFree c lc hok ?_ p, rfl⟩
            exact ⟨hr.state.sys.memcpy _ info.userPtr _, hr.state.mal, hr.state.log⟩
          · exact ⟨hr.state.huFree c lc hok p, rfl⟩

theorem huCall (hok : ans.Unprotects) (h : s.Shadows s') (call : Call) :
    ResultsAlike (huCall c lc ans call s) (huCall c lc ans.obeyed call s') := by
  cases call with
  | malloc size => exact h.huMalloc c size
  | free ptr => exact ⟨h.huFree c lc hok ptr, rfl⟩
  | calloc nmemb size => exact h.huCalloc c nmemb size
  | realloc ptr size => exact h.huRealloc c lc hok ptr size

end HuState.Shadows

/-! ## §3 Runs -/

/-- A call on null or a live block that succeeds, with a fenced size that does not wrap
and a kernel that gives access back when it is asked to. `hu_mprotect` does not end the
process over a refusal. -/
structure Session.Bears (c : MallocConfig) (lc : LogConfig) (σ : Session) (i : AllocInput) :
    Prop where
  permitted : i.call.Permitted σ.client
  fits : 0 < i.call.requested → c.huMinsize ≤ i.call.requested → c.Fits i.call.requested
  unprotects : i.ans.Unprotects
  succeeds : ¬ i.call.Failed (huCall c lc i.ans i.call σ.tool).2
  continues : (huCall c lc i.ans i.call σ.tool).1.mal.exitRequested = false

/-- The steps of the runs considered. -/
def Session.Endures (c : MallocConfig) (lc : LogConfig) (σ : Session) : ClientInput → Prop
  | .call i => σ.Bears c lc i
  | .store p i _ => ∃ n, (p, n) ∈ σ.client ∧ i < n

/-- The step with a kernel that obeys. -/
def ClientInput.obeyed : ClientInput → ClientInput
  | .call i => .call ⟨i.call, i.ans.obeyed⟩
  | .store p i v => .store p i v

theorem ClientInput.obeyed_op (i : ClientInput) : i.obeyed.op = i.op := by
  cases i with
  | store p i v => rfl
  | call i =>
    obtain ⟨call, ans⟩ := i
    cases call <;> rfl

/-- The run with a kernel that obeys, alongside. -/
structure ObeyedInv (c : MallocConfig) (σ τ : Session) : Prop where
  alike : σ.tool.Shadows τ.tool
  client : σ.client = τ.client
  alloc : AllocInv c τ

namespace ObeyedInv

variable {c : MallocConfig} {lc : LogConfig} {σ τ : Session} {i : ClientInput}

theorem heap (h : ObeyedInv c σ τ) : σ.heap = τ.heap := by
  rw [Session.heap, Session.heap, h.client]
  exact HuState.blocks_eq fun p n _ k _ => by rw [h.alike.sys.mem]

theorem result (h : ObeyedInv c σ τ) (hi : σ.Endures c lc i) :
    σ.clientResult c lc i = τ.clientResult c lc i.obeyed := by
  cases i with
  | store p i v => rfl
  | call i => exact (h.alike.huCall c lc hi.unprotects i.call).answer

/-- What is served by the real run is served by the other one. -/
theorem accepts (h : ObeyedInv c σ τ) (hi : σ.Endures c lc i) : τ.Accepts c lc i.obeyed := by
  cases i with
  | store p i v =>
    obtain ⟨n, hp, hin⟩ := hi
    exact ⟨n, h.client ▸ hp, hin⟩
  | call i =>
    have hresult : (huCall c lc i.ans i.call σ.tool).2 = _ := h.result (i := .call i) hi
    have hsucceeds := hi.succeeds
    rw [hresult] at hsucceeds
    exact ⟨h.client ▸ hi.permitted, hi.fits, fun _ _ _ => rfl, hsucceeds⟩

/-- The two runs after a step. -/
theorem next (h : ObeyedInv c σ τ) (hi : σ.Endures c lc i) :
    ObeyedInv c (σ.clientNext c lc i) (τ.clientNext c lc i.obeyed) := by
  have halloc := h.alloc.clientNext (h.accepts hi)
  cases i with
  | store p i v =>
    exact ⟨⟨h.alike.sys.store (p + i) v, h.alike.mal, h.alike.log⟩, h.client, halloc⟩
  | call i =>
    have hcall := h.alike.huCall c lc hi.unprotects i.call
    have hkeeps : σ.tool.keeps i.call = τ.tool.keeps i.call :=
      congrArg Option.isNone (h.alike.lookup i.call.argument)
    refine ⟨hcall.state, ?_, halloc⟩
    simp only [Session.clientNext, Session.allocNext, ClientInput.obeyed, hkeeps, hcall.answer,
      h.client]

theorem refines (h : ObeyedInv c σ τ) (hi : σ.Endures c lc i) : σ.Refines c lc i := by
  have hideal := h.alloc.refines (h.accepts hi)
  have hnext := h.next hi
  have hstep := hideal.step
  rw [ClientInput.obeyed_op, ← h.heap, ← h.result hi, ← hnext.heap] at hstep
  refine ⟨hstep, fun x bs hx hne => hstep.frame hx hne, ?_, fun p n hp k hk => ?_⟩
  · rw [hnext.heap]
    exact hideal.separate
  · rw [hnext.client] at hp
    exact hnext.alike.sys.allows _ (hideal.accessible p n hp k hk)

end ObeyedInv

/-- **A refusal to protect costs nothing but the detection**: along every run of
successful calls and stores in which the kernel may refuse to take access away from a
fence or a block in the quarantine, as long as it gives access back and `hu_mprotect`
does not give up, every step is one of the C heap, and the blocks of the program are
separate and accessible. -/
theorem refused_protection_harmless (c : MallocConfig) (lc : LogConfig) (l : LogState)
    (is : List ClientInput)
    (hrun : Along (Session.clientNext c lc) (Session.Endures c lc) (.allocInit l) is) :
    Along (Session.clientNext c lc) (Session.Refines c lc) (.allocInit l) is := by
  have hnext : ∀ σ i, (∃ τ, ObeyedInv c σ τ) → σ.Endures c lc i →
      ∃ τ, ObeyedInv c (σ.clientNext c lc i) τ := by
    rintro σ i ⟨τ, h⟩ hi
    exact ⟨_, h.next hi⟩
  have hrefines : ∀ σ i, (∃ τ, ObeyedInv c σ τ) → σ.Endures c lc i → σ.Refines c lc i := by
    rintro σ i ⟨τ, h⟩ hi
    exact h.refines hi
  exact Along.mono hnext hrefines is _ ⟨_, .refl _, rfl, AllocInv.init l⟩ hrun

/-- A kernel that only gives access. -/
def SysAns.withoutProtection (p : Nat) : SysAns :=
  ⟨p, fun _ => 0, fun _ _ prot => prot = .readWrite⟩

/-- The fence of a block is refused, then its place in the quarantine. -/
theorem refused_protection_harmless_twice :
    let c := (HuConfig.tools true true true 8).mallocConfig
    let lc := (HuConfig.tools true true true 8).logConfig
    Along (Session.clientNext c lc) (Session.Refines c lc) (.allocInit logInit)
      [.call ⟨.malloc 8, .withoutProtection 8192⟩, .store 12272 3 7,
        .call ⟨.free 12272, .withoutProtection 0⟩,
        .call ⟨.malloc 8, .withoutProtection 8192⟩] := by
  intro c lc
  refine refused_protection_harmless c lc logInit _ ⟨?_, ?_, ?_, ?_, trivial⟩
  · exact ⟨.inl rfl, fun _ _ => by decide, fun _ _ => rfl, by decide, by decide⟩
  · exact ⟨8, by decide, by decide⟩
  · exact ⟨.inr (by decide), fun h => absurd h (by decide), fun _ _ => rfl, by decide,
      by decide⟩
  · exact ⟨.inl rfl, fun _ _ => by decide, fun _ _ => rfl, by decide, by decide⟩

end Heapusage
