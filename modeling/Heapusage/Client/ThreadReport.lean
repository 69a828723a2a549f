/-
Heapusage.Client.ThreadReport — the last report of a program with threads.

The report of `Client.LeakReport` is about calls that come one after the other. Here
the threads of a program call the wrappers at the same time, and each knows of itself
what it holds and where it obtained it (`ThreadView`). The report that `hu_fini` writes
is then about what the threads know, all of them together, less what the C library
has released before.

§1 Threads — the records of a thread, and the rule it keeps to.
§2 Steps   — one call, whatever the views of the other threads (`Knows.next`).
§3 Frees   — those that `hu_fini` has the C library make.
§4 The end of the program (`threads_leak_report`).
-/
import Heapusage.Client.Threads
import Heapusage.Client.LeakReport

namespace Heapusage

open Arenas Runs Tables Atomic

/-! ## §1 Threads -/

namespace ThreadView

/-- The blocks of an analysed size a thread holds, with the callstacks it obtained
them at. -/
def held (c : HuConfig) (V : ThreadView) : List HuAllocinfoT :=
  (V.blocks.filter fun b => 0 < b.2 ∧ c.huMinsize ≤ b.2).map fun b =>
    ⟨b.1, b.2, V.birth b.1, [], 1⟩

/-- A call on null or a block of the thread's own that succeeds, of a fenced size
that does not wrap; the thread makes no report. -/
structure CleanCall (c : HuConfig) (V : ThreadView) (call : Call) (q : Nat) : Prop where
  permitted : call.Permitted V.blocks
  succeeds : ¬ call.Failed q
  fits : c.huEnableHumalloc = true → 0 < call.requested → c.huMinsize ≤ call.requested →
    c.mallocConfig.Fits call.requested

/-- The rule of a thread. -/
def Clean (c : HuConfig) (V : ThreadView) : Step × Nat → Prop
  | (.call _ call _, q) => V.CleanCall c call q
  | _ => False

theorem mem_held {c : HuConfig} {V : ThreadView} {r : HuAllocinfoT} :
    r ∈ V.held c ↔ (r.ptr, r.size) ∈ V.blocks ∧ 0 < r.size ∧ c.huMinsize ≤ r.size ∧
      r = ⟨r.ptr, r.size, V.birth r.ptr, [], 1⟩ :=
  Trace.mem_held (σ := ⟨⟨SysHeap.init, mallocStart, logInit⟩, V.blocks, V.birth, fun _ => []⟩)

end ThreadView

/-! ## §2 Steps -/

/-- The calls of the threads so far are those of a trace, and the threads know its
blocks and their callstacks. -/
structure Knows (c : HuConfig) (P : Process) (V : Tid → ThreadView) (σ : Trace) : Prop where
  process : P = ⟨σ.tool, fun _ => .fresh⟩
  leak : LeakInv c σ
  holders : σ.client.HeldBy fun t => (V t).blocks
  births : ∀ t p, p ∈ (V t).blocks.ptrs → (V t).birth p = σ.birth p

namespace Knows

variable {c : HuConfig} {P P' : Process} {V : Tid → ThreadView} {σ : Trace} {t : Tid}

theorem start (c : HuConfig) : Knows c (.start c) (fun _ => .start) (.init c) where
  process := rfl
  leak := LeakInv.init c
  holders := .start
  births _ _ h := absurd h List.not_mem_nil

/-- Thread `t` has its own callstack for what the call returned, and no other thread
holds that. -/
theorem births_next (h : Knows c P V σ) {q : Nat} {stack : Callstack} {x : ThreadView}
    {L : ClientHeap} (hL : L.HeldBy (Function.update (fun u => (V u).blocks) t x.blocks))
    (hq : q ∈ L.ptrs → q ∈ x.blocks.ptrs)
    (hold : ∀ p, p ∈ x.blocks.ptrs → p ≠ q → p ∈ (V t).blocks.ptrs)
    (hx : ∀ p, x.birth p = if p = q then stack else (V t).birth p) (u : Tid) (p : Nat)
    (hp : p ∈ (Function.update V t x u).blocks.ptrs) :
    (Function.update V t x u).birth p = if p = q then stack else σ.birth p := by
  by_cases hu : u = t
  · subst hu
    rw [Function.update_self] at hp ⊢
    rw [hx]
    split
    · rfl
    · rename_i hpq
      exact h.births u p (hold p hp hpq)
  · rw [Function.update_of_ne hu] at hp ⊢
    have hmem : p ∈ (Function.update (fun u => (V u).blocks) t x.blocks u).ptrs := by
      rwa [Function.update_of_ne hu]
    have hpq : p ≠ q := by
      rintro rfl
      refine hu (hL.apart u t p hmem ?_)
      rw [Function.update_self]
      exact hq (hL.ptrs hmem)
    rw [if_neg hpq]
    exact h.births u p hp

/-- A thread calls a wrapper. -/
theorem call (h : Knows c P V σ) (call : Call) (env : CallEnv)
    (hi : (V t).CleanCall c call (P.result c t call env).2) :
    Knows c { P with tool := (P.result c t call env).1 }
      (Function.update V t ((V t).next (.call t call env, (P.result c t call env).2)))
      (σ.next c ⟨call, env⟩) := by
  obtain rfl := h.process
  have hheap := h.leak.fault.session.heap
  have hclean : σ.Clean c ⟨call, env⟩ :=
    ⟨hi.permitted.imp id fun hp => h.holders.ptrs hp, hi.succeeds, hi.fits⟩
  have hleak := h.leak.next hclean
  have hnext := hleak.fault.session.heap
  have hfree : ∀ ptr, call = .free ptr → (σ.session.result c ⟨call, env⟩).2 = 0 :=
    Session.result_free c σ.session ⟨call, env⟩
  have hholders : (σ.next c ⟨call, env⟩).client.HeldBy
      (Function.update (fun u => (V u).blocks) t
        (call.after true (σ.session.result c ⟨call, env⟩).2 (V t).blocks)) :=
    h.holders.after hheap.client_nodup hheap.null_not_held hi.permitted hfree hi.succeeds
      hnext.client_nodup
  refine ⟨rfl, hleak, ?_, h.births_next hholders (fun hq => ?_) (fun p => Call.ptrs_of_after)
    fun _ => rfl⟩
  · rw [ThreadView.blocks_update]
    exact hholders
  · have hne : (σ.session.result c ⟨call, env⟩).2 ≠ 0 :=
      fun h0 => hnext.null_not_held (h0 ▸ hq)
    exact List.mem_map_of_mem (Call.returned_mem_after hne fun ptr hcall => hne (hfree ptr hcall))

/-- An operation of a thread that keeps to its rule. -/
theorem next (h : Knows c P V σ) {i : Step} (htid : i.tid = t)
    (hi : (V t).Clean c (i, (P.apply c i).2)) :
    ∃ σ', Knows c (P.apply c i).1 (Function.update V t ((V t).next (i, (P.apply c i).2))) σ' := by
  subst htid
  cases i with
  | report u phase => exact hi.elim
  | fini u phase => exact hi.elim
  | call u call env => exact ⟨_, h.call call env hi⟩

/-- A serial run of threads that keep to their rules. -/
theorem run (h : Knows c P V σ) {es : List (Tid × Step × Nat)}
    (hserial : Serial (Process.apply c) P es P')
    (hrules : ∀ t, Along ThreadView.next (fun V x => x.1.tid = t ∧ V.Clean c x) (V t)
      (ofThread t es)) :
    ∃ σ', Knows c P' (fun t => exec ThreadView.next (V t) (ofThread t es)) σ' := by
  obtain ⟨σ', -, hknows⟩ := Serial.views (T := fun _ _ _ => True) (R := Knows c)
    (fun P V σ t i h ⟨htid, hclean⟩ => (h.next htid hclean).imp fun _ hnext => ⟨trivial, hnext⟩)
    es h hserial hrules
  exact ⟨σ', hknows⟩

/-- The records of the trace are those of the threads. -/
theorem mem_held (h : Knows c P V σ) (r : HuAllocinfoT) :
    r ∈ σ.held c ↔ ∃ t, r ∈ (V t).held c := by
  simp only [Trace.mem_held, ThreadView.mem_held]
  constructor
  · rintro ⟨hr, hpos, hmin, heq⟩
    obtain ⟨t, ht⟩ := (h.holders.held _ _).mp hr
    refine ⟨t, ht, hpos, hmin, ?_⟩
    rw [h.births t r.ptr (List.mem_map_of_mem ht)]
    exact heq
  · rintro ⟨t, ht, hpos, hmin, heq⟩
    refine ⟨(h.holders.held _ _).mpr ⟨t, ht⟩, hpos, hmin, ?_⟩
    rw [← h.births t r.ptr (List.mem_map_of_mem ht)]
    exact heq

end Knows

/-! ## §3 Frees -/

/-- What `hu_fini` may have the C library release when the program holds `L`: null,
foreign blocks and blocks of the program, none of them twice. -/
structure Freeres.Sound (s : HuState) (L : ClientHeap) (frees : Freeres) : Prop where
  each : ∀ p ∈ frees.map Prod.fst, (p = 0 ∨ s.Foreign p) ∨ p ∈ L.ptrs
  once : (frees.map Prod.fst).Pairwise fun p q => p = q → p = 0

/-- Nothing is handed out on the way from one state to the other. -/
structure HuState.Within (s s' : HuState) : Prop where
  addrs : s'.mal.huUserAddrs = s.mal.huUserAddrs
  blocks : ∀ r ∈ s'.sys.arena.blocks, r ∈ s.sys.arena.blocks

namespace HuState.Within

variable (c : MallocConfig) (lc : LogConfig) (ans : SysAns) {s s' s'' : HuState}

theorem refl (s : HuState) : s.Within s := ⟨rfl, fun _ hr => hr⟩

theorem trans (h : s.Within s') (h' : s'.Within s'') : s.Within s'' :=
  ⟨h'.addrs.trans h.addrs, fun r hr => h.blocks r (h'.blocks r hr)⟩

theorem libcFree (p : Nat) (s : HuState) : s.Within (s.libcFree p) := by
  refine ⟨rfl, fun r hr => ?_⟩
  unfold HuState.libcFree SysHeap.libcFree at hr
  split at hr
  · exact hr
  · exact ((Arena.mem_release _ _ _).mp hr).1

theorem huMprotect (addr len : Nat) (prot : Prot) (s : HuState) :
    s.Within (huMprotect c ans addr len prot s) :=
  ⟨huMprotect_addrs .., fun r hr => by rwa [huMprotect_arena] at hr⟩

theorem evictFront (info : HuAllocInfo) (s : HuState) : s.Within (evictFront c lc ans info s) := by
  have hfree := (huMprotect c ans info.sysPtr info.sysSize .readWrite
    { s with mal := { s.mal with
      huQuarantineEvicted := true
      huQuarantineAllocs := s.mal.huQuarantineAllocs.tail } }).trans (libcFree info.sysPtr _)
  exact ⟨hfree.addrs, hfree.blocks⟩

theorem quarantine (info : HuAllocInfo) (s : HuState) :
    s.Within (quarantine c lc ans info s) := by
  have hfirst := huMprotect c ans info.sysPtr info.sysSize .none s
  unfold Heapusage.quarantine
  exact evictLoop_invariant c lc ans (P := s.Within)
    (fun info' _ s' _ h => h.trans (evictFront c lc ans info' s')) _ _ rfl ⟨hfirst.addrs, hfirst.blocks⟩

theorem huFree (p : Nat) (s : HuState) : s.Within (huFree c lc ans p s) := by
  cases hinit : s.mal.huMallocInited with
  | false =>
    rw [huFree_uninited _ _ _ _ hinit]
    exact libcFree p s
  | true =>
    rcases huFree_cases c lc ans p s hinit with ⟨-, h⟩ | ⟨-, -, h⟩ | ⟨-, -, -, h⟩ |
      ⟨-, -, info, -, h⟩
    · rw [h]
      exact refl s
    · rw [h]
      exact libcFree p s
    · rw [h]
      exact refl s
    · rw [h]
      simp only
      have herase : s.Within { s with mal := { s.mal with
          huActiveAllocs := s.mal.huActiveAllocs.erase p } } := ⟨rfl, fun _ hr => hr⟩
      split
      · exact herase.trans (quarantine c lc ans info _)
      · exact (herase.trans (huMprotect c ans _ _ _ _)).trans (libcFree info.sysPtr _)

/-- What is foreign before is foreign after. -/
theorem foreign (h : s.Within s') {p : Nat} (hp : s.Foreign p) : s'.Foreign p :=
  ⟨fun ⟨r, hr, hbase⟩ => hp.1 ⟨r, h.blocks r hr, hbase⟩, fun haddr => hp.2 (h.addrs ▸ haddr)⟩

end HuState.Within

/-- A wrapper call of `free` hands nothing out. -/
theorem Trace.free_within (c : HuConfig) (σ : Trace) (p : Nat) (env : CallEnv) :
    σ.tool.Within (σ.next c ⟨.free p, env⟩).tool := by
  have htool : (σ.next c ⟨.free p, env⟩).tool =
      logHalf c env (allocHalf c env.ans (.free p) σ.tool).2 (.free p)
        (allocHalf c env.ans (.free p) σ.tool).1 :=
    congrArg Prod.fst (tracked_eq c env (.free p) σ.tool)
  have hhalf : σ.tool.Within (allocHalf c env.ans (.free p) σ.tool).1 := by
    unfold allocHalf
    split
    · exact HuState.Within.huFree c.mallocConfig c.logConfig env.ans p σ.tool
    · exact HuState.Within.libcFree p σ.tool
  rw [htool]
  exact ⟨by rw [logHalf_mal, hhalf.addrs], fun r hr => hhalf.blocks r (by rwa [logHalf_sys] at hr)⟩

/-- A free by the C library takes one block from the program, if any. -/
theorem LeakInv.next_free {c : HuConfig} {σ : Trace} (h : LeakInv c σ) {p : Nat}
    (hp : (p = 0 ∨ σ.tool.Foreign p) ∨ p ∈ σ.client.ptrs) (env : CallEnv) :
    LeakInv c (σ.next c ⟨.free p, env⟩) ∧
      (σ.next c ⟨.free p, env⟩).client = σ.client.drop p ∧
      ∀ r, r ∈ (σ.next c ⟨.free p, env⟩).held c ↔ r ∈ σ.held c ∧ r.ptr ≠ p := by
  have hheap := h.fault.session.heap
  have hnext : LeakInv c (σ.next c ⟨.free p, env⟩) := by
    rcases hp with hforeign | hheld
    · exact h.next_foreign hforeign env
    · exact h.next ⟨.inr hheld, fun hf => hf.1 rfl, fun _ hpos => absurd hpos (Nat.lt_irrefl 0)⟩
  refine ⟨hnext, rfl, fun r => ?_⟩
  have hbirth : r.ptr ∈ σ.client.ptrs →
      (σ.next c ⟨.free p, env⟩).birth r.ptr = σ.birth r.ptr := by
    intro hr
    have hzero : (wrapper c env .fresh (.free p) σ.tool).2 = 0 :=
      Session.result_free c σ.session ⟨.free p, env⟩ p rfl
    show (if r.ptr = (wrapper c env .fresh (.free p) σ.tool).2 then env.allocStack
      else σ.birth r.ptr) = σ.birth r.ptr
    have hne : r.ptr ≠ 0 := fun h0 => hheap.null_not_held (h0 ▸ hr)
    rw [hzero, if_neg hne]
  have hdrop : (r.ptr, r.size) ∈ (σ.next c ⟨.free p, env⟩).client ↔
      (r.ptr, r.size) ∈ σ.client ∧ r.ptr ≠ p := ClientHeap.mem_drop hheap.client_nodup
  rw [Trace.mem_held, Trace.mem_held, hdrop]
  constructor
  · rintro ⟨⟨hr, hne⟩, hpos, hmin, heq⟩
    rw [hbirth (List.mem_map_of_mem hr)] at heq
    exact ⟨⟨hr, hpos, hmin, heq⟩, hne⟩
  · rintro ⟨⟨hr, hpos, hmin, heq⟩, hne⟩
    rw [← hbirth (List.mem_map_of_mem hr)] at heq
    exact ⟨⟨hr, hne⟩, hpos, hmin, heq⟩

/-- All of them. -/
theorem LeakInv.freeres {c : HuConfig} (frees : Freeres) : ∀ {σ : Trace}, LeakInv c σ →
    Freeres.Sound σ.tool σ.client frees →
    LeakInv c (exec (Trace.next c) σ frees.inputs) ∧
      ∀ r, r ∈ (exec (Trace.next c) σ frees.inputs).held c ↔
        r ∈ σ.held c ∧ r.ptr ∉ frees.map Prod.fst := by
  induction frees with
  | nil => exact fun h _ => ⟨h, fun r => (and_iff_left List.not_mem_nil).symm⟩
  | cons f frees ih =>
    intro σ h hsound
    obtain ⟨p, env⟩ := f
    obtain ⟨hfirst, hrest⟩ := List.forall_mem_cons.mp hsound.each
    obtain ⟨hother, honce⟩ := List.pairwise_cons.mp hsound.once
    obtain ⟨hnext, hclient, hheld⟩ := h.next_free hfirst env
    have hwithin := σ.free_within c p env
    have hsound' : Freeres.Sound (σ.next c ⟨.free p, env⟩).tool
        (σ.next c ⟨.free p, env⟩).client frees := by
      refine ⟨fun q hq => ?_, honce⟩
      rcases hrest q hq with (hnull | hforeign) | hmem
      · exact .inl (.inl hnull)
      · exact .inl (.inr (hwithin.foreign hforeign))
      · by_cases hpq : p = q
        · exact .inl (.inl (hpq ▸ hother q hq hpq))
        · obtain ⟨b, hb, rfl⟩ := List.mem_map.mp hmem
          refine .inr (List.mem_map_of_mem ?_)
          rw [hclient]
          exact (ClientHeap.mem_drop h.fault.session.heap.client_nodup).mpr
            ⟨hb, fun heq => hpq heq.symm⟩
    obtain ⟨hinv, hall⟩ := ih hnext hsound'
    refine ⟨hinv, fun r => (hall r).trans ?_⟩
    rw [hheld, List.map_cons, List.mem_cons, not_or, and_assoc]

/-! ## §4 The end of the program -/

/-- A call of `free` from beginning to end, by a thread that need not wait. -/
def Turn.free (t : Tid) (p : Nat) (env : CallEnv) : List Turn :=
  .call t (.free p) env :: List.replicate 5 (.go t)

/-- The calls of `free` that `hu_fini` has the C library make. -/
def Turn.freeres (t : Tid) (frees : Freeres) : List Turn :=
  frees.flatMap fun f => Turn.free t f.1 f.2

/-- `hu_fini`, by the thread that runs `exit`. -/
def Turn.huFini (t : Tid) (frees : Freeres) (order : List HuAllocinfoT) : List Turn :=
  Turn.freeres t frees ++ [.fini t .disable, .fini t (.summary order), .fini t .restore]

theorem Step.huFini_eq (t : Tid) (frees : Freeres) (order : List HuAllocinfoT) :
    Step.huFini t frees order =
      (frees.map fun f => .call t (.free f.1) f.2) ++ Step.huFini t [] order := rfl

/-- They are calls of the trace. -/
theorem Process.exec_frees (c : HuConfig) (σ : Trace) (t : Tid) (frees : Freeres) :
    exec (Process.next c) ⟨σ.tool, fun _ => .fresh⟩ (frees.map fun f => .call t (.free f.1) f.2) =
      ⟨(exec (Trace.next c) σ frees.inputs).tool, fun _ => .fresh⟩ := by
  have hcalls := Process.exec_calls c (frees.inputs.map (t, ·)) σ
  simpa [Freeres.inputs, Step.ofCall, Function.comp_def] using hcalls

namespace Interleaved

variable (c : HuConfig) {t : Tid}

/-- The machine `M` but for thread `t`, the lock and the process. -/
def solo (M : Interleaved) (t : Tid) (P : Process) (mutex : Option Tid) (p : Place) :
    Interleaved :=
  ⟨P, fun u => if u = t then p else M.place u, mutex⟩

section Solo

variable {M : Interleaved} {P : Process} {mutex : Option Tid} {p : Place} {call : Call}
  {env : CallEnv}

@[simp] theorem solo_place : (M.solo t P mutex p).place t = p := if_pos rfl

@[simp] theorem moveTo_solo (p' : Place) :
    (M.solo t P mutex p).moveTo t p' = M.solo t P mutex p' := by
  simp only [solo, moveTo]
  congr 1
  funext u
  split <;> rfl

theorem enter_solo (htracks : (M.tls t).tracks = true) :
    M.enter t call env =
      M.solo t (M.toProcess.onThread t (·.guard)) M.huMutex (.locking call env) := by
  obtain ⟨hbypass, hcount⟩ := ThreadLocal.tracks_iff.mp htracks
  have hrecursive : (M.tls t).guard.isRecursiveCall = false := by
    simp [ThreadLocal.isRecursiveCall, ThreadLocal.guard, hcount]
  rw [enter, hbypass, hrecursive]
  rfl

theorem go_locking : (M.solo t P none (.locking call env)).go c t =
    M.solo t P (some t) (.allocating call env) := by
  rw [go, solo_place]
  simp only [moveTo_solo]
  rfl

theorem go_allocating : (M.solo t P mutex (.allocating call env)).go c t =
    M.solo t { P with tool := (allocHalf c env.ans call P.tool).1 } mutex
      (.logging (allocHalf c env.ans call P.tool).2
        (call.events env (allocHalf c env.ans call P.tool).2)) := by
  rw [go, solo_place]
  simp only [moveTo_solo]
  rfl

theorem go_logging (q : Nat) (ev : PendingEvent) (todo : List PendingEvent) :
    (M.solo t P mutex (.logging q (ev :: todo))).go c t =
      M.solo t { P with tool := ev.run c P.tool } mutex (.logging q todo) := by
  rw [go, solo_place]
  simp only [moveTo_solo]
  rfl

theorem go_unlock (q : Nat) : (M.solo t P mutex (.logging q [])).go c t =
    M.solo t P none (.returning true q) := by
  rw [go, solo_place]
  simp only [moveTo_solo]
  rfl

theorem go_return (q : Nat) : (M.solo t P mutex (.returning true q)).go c t =
    M.solo t (P.onThread t (·.unguard)) mutex .outside := by
  rw [go, solo_place]
  simp only [moveTo_solo]
  rfl

end Solo

/-- A free when nobody is in a wrapper. -/
theorem exec_free {M : Interleaved} (ht : M.place t = .outside) (hfree : M.huMutex = none)
    (htracks : (M.tls t).tracks = true) (p : Nat) (env : CallEnv) :
    exec (Interleaved.next c) M (Turn.free t p env) =
      ⟨M.toProcess.next c (.call t (.free p) env), M.place, M.huMutex⟩ := by
  have hcall : M.next c (.call t (.free p) env) = M.enter t (.free p) env := by
    simp only [next, ht]
  have hdone : ∀ P : Process, M.solo t P none .outside = ⟨P, M.place, none⟩ := by
    intro P
    refine congrArg (Interleaved.mk P · none) (funext fun u => ?_)
    split
    · rename_i hu
      rw [hu, ht]
    · rfl
  have htls : ∀ s : HuState, Process.onThread t (·.unguard)
      ⟨s, (M.toProcess.onThread t (·.guard)).tls⟩ = ⟨s, M.tls⟩ := by
    intro s
    refine congrArg (Process.mk s) (funext fun u => ?_)
    rw [Process.onThread_tls, Process.onThread_tls, if_pos rfl]
    split
    · rename_i hu
      rw [hu]
      rfl
    · rfl
  have hresult : M.toProcess.next c (.call t (.free p) env) =
      ⟨logHalf c env (allocHalf c env.ans (.free p) M.tool).2 (.free p)
        (allocHalf c env.ans (.free p) M.tool).1, M.tls⟩ := by
    rw [Process.next, Process.result, wrapper_eq, htracks, if_pos rfl]
  rw [Turn.free, exec_cons, hcall, enter_solo htracks, hfree, hresult]
  calc exec (Interleaved.next c) _ (List.replicate 5 (.go t))
      = ((((((M.solo t (M.toProcess.onThread t (·.guard)) none
          (.locking (.free p) env)).go c t).go c t).go c t).go c t).go c t) := rfl
    _ = M.solo t (Process.onThread t (·.unguard) ⟨_, (M.toProcess.onThread t (·.guard)).tls⟩)
          none .outside := by
        rw [go_locking, go_allocating, Call.events, go_logging, go_unlock, go_return]
    _ = ⟨⟨_, M.tls⟩, M.place, none⟩ := by
        rw [htls, hdone]
        rfl

/-- The frees of `hu_fini` are calls of the process. -/
theorem exec_freeres (frees : Freeres) : ∀ {M : Interleaved}, M.place t = .outside →
    M.huMutex = none → (M.tls t).tracks = true →
    exec (Interleaved.next c) M (Turn.freeres t frees) =
      ⟨exec (Process.next c) M.toProcess (frees.map fun f => .call t (.free f.1) f.2),
        M.place, M.huMutex⟩ := by
  induction frees with
  | nil => exact fun _ _ _ => rfl
  | cons f frees ih =>
    intro M ht hfree htracks
    rw [Turn.freeres, List.flatMap_cons, exec_append, exec_free c ht hfree htracks]
    exact ih ht hfree htracks

/-- `hu_fini` when nobody is in a wrapper. -/
theorem exec_huFini {M : Interleaved} (ht : M.place t = .outside) (hfree : M.huMutex = none)
    (htracks : (M.tls t).tracks = true) (frees : Freeres) (order : List HuAllocinfoT) :
    (exec (Interleaved.next c) M (Turn.huFini t frees order)).toProcess =
      exec (Process.next c) M.toProcess (Step.huFini t frees order) := by
  rw [Turn.huFini, exec_append, exec_freeres c frees ht hfree htracks, Step.huFini, exec_append]
  simp [Interleaved.next, Process.next, ht, hfree]

end Interleaved

/-- **The report of a program with threads**: in every run of the threads, however
their calls are interleaved, if each of them passes only blocks of its own, then the
report that `hu_fini` writes at the end is about the blocks of an analysed size that
the threads hold, all of them together, with the callstacks at which each thread
obtained its own, less those that the C library has released at the beginning of
`hu_fini`. -/
theorem threads_leak_report (c : HuConfig) (hleak : c.huLeak = true)
    (hwritable : c.logWritable = true) (turns : List Turn)
    (hturns : Along (Interleaved.next c) Interleaved.Undisturbed (.start c) turns)
    (hdone : ∀ t, (exec (Interleaved.next c) (.start c) turns).place t = .outside)
    (hrule : ∀ t, Along ThreadView.next (ThreadView.Clean c) .start
      (Interleaved.sawOf c turns t)) (u : Tid) (frees : Freeres)
    (hfrees : ∀ p ∈ frees.map Prod.fst,
      (p = 0 ∨ (exec (Interleaved.next c) (.start c) turns).tool.Foreign p) ∨
        ∃ t, p ∈ (Interleaved.viewOf c turns t).blocks.ptrs)
    (honce : (frees.map Prod.fst).Pairwise fun p q => p = q → p = 0)
    (order : List HuAllocinfoT)
    (horder : order.Perm (values
      (exec (Interleaved.next c) (.start c) (turns ++ Turn.freeres u frees)).tool.log.allocations))
    (hfew : order.length < 2 ^ 31) :
    ∃ (s : Summary) (blocks : List HuAllocinfoT),
      (exec (Interleaved.next c) (.start c)
          (turns ++ Turn.huFini u frees order)).tool.log.logFile =
        .summary s :: (exec (Interleaved.next c) (.start c)
          (turns ++ Turn.freeres u frees)).tool.log.logFile ∧
      s.Accounts blocks ∧ blocks.Nodup ∧
      ∀ r, r ∈ blocks ↔ (∃ t, r ∈ (Interleaved.viewOf c turns t).held c) ∧
        r.ptr ∉ frees.map Prod.fst := by
  obtain ⟨es, hserial, hes, hrules⟩ := Interleaved.exists_order hturns hdone hrule
  obtain ⟨σ, hknows⟩ := (Knows.start c).run hserial hrules
  simp only [hes] at hknows
  have hprocess := hknows.process
  have hlocked : Interleaved.Locked (exec (Interleaved.next c) (.start c) turns) :=
    exec_invariant (fun M i h => h.next i) turns _ (Interleaved.Locked.start c)
  have htracks : ((exec (Interleaved.next c) (.start c) turns).tls u).tracks = true := by
    rw [congrArg Process.tls hprocess]
    exact ThreadLocal.fresh_tracks
  -- the frees are calls of the trace as well
  have hsound : Freeres.Sound σ.tool σ.client frees := by
    refine ⟨fun p hp => (hfrees p hp).imp (fun h => ?_) fun h => ?_, honce⟩
    · rwa [congrArg Process.tool hprocess] at h
    · obtain ⟨t, ht⟩ := h
      exact hknows.holders.ptrs (t := t) ht
  obtain ⟨hinv, hheld⟩ := hknows.leak.freeres frees hsound
  have hended : (exec (Interleaved.next c) (.start c) (turns ++ Turn.freeres u frees)).toProcess =
      ⟨(exec (Trace.next c) σ frees.inputs).tool, fun _ => .fresh⟩ := by
    rw [exec_append, Interleaved.exec_freeres c frees (hdone u) (hlocked.free_of_done hdone)
      htracks, hprocess]
    exact Process.exec_frees c σ u frees
  have hlog := congrArg (·.tool.log) hended
  rw [hlog] at horder
  have hcount : ((exec (Trace.next c) σ frees.inputs).held c).length < 2 ^ 31 := by
    rw [← hinv.perm_held.length_eq, ← horder.length_eq]
    exact hfew
  refine ⟨_, (exec (Trace.next c) σ frees.inputs).held c, ?_, hinv.accounts hleak hcount horder
    false (huQuarantineWasEvicted (exec (Trace.next c) σ frees.inputs).tool.mal),
    Trace.held_nodup hinv.fault.session.heap.client_nodup, fun r => ?_⟩
  · rw [exec_append, Interleaved.exec_huFini c (hdone u) (hlocked.free_of_done hdone) htracks,
      hprocess, Step.huFini_eq, exec_append, Process.exec_frees, hlog]
    exact Process.huFini_logFile c hwritable u order _
  · rw [hheld, hknows.mem_held]
    rfl

/-- Two fenced blocks and a small one; one of the first is released. -/
def loseOther : List Turn :=
  [.call 0 (.malloc 8) (.answering 8192), .go 0, .call 1 (.malloc 24) (.answering 16384), .go 0,
    .go 1, .go 0, .go 0, .go 1, .go 0, .go 1, .go 1, .go 1, .go 1,
    .call 0 (.free 12272) (.answering 0), .go 0, .go 0, .go 0, .go 0, .go 0,
    .call 0 (.malloc 4) (.answering 64), .go 0, .go 0, .go 0, .go 0, .go 0]

/-- Null, a block of the C library's own, and the small one. -/
def loseOtherFrees : Freeres := [(0, .answering 0), (128, .answering 0), (64, .answering 0)]

/-- The report is about the lost one. -/
theorem threads_leak_report_lost :
    ∃ (s : Summary) (blocks : List HuAllocinfoT),
      (exec (Interleaved.next (.tools true true true 8)) (.start (.tools true true true 8))
        (loseOther ++ Turn.huFini 0 loseOtherFrees
          [⟨20448, 24, [1, 2], [], 1⟩])).tool.log.logFile = [.summary s] ∧
      s.Accounts blocks ∧ ∀ r, r ∈ blocks ↔ r = ⟨20448, 24, [1, 2], [], 1⟩ := by
  have hhist : history (Interleaved.next (.tools true true true 8)) Interleaved.sees
      (.start (.tools true true true 8)) loseOther =
      [.invoke 0 (.call 0 (.malloc 8) (.answering 8192)),
        .invoke 1 (.call 1 (.malloc 24) (.answering 16384)), .respond 0 12272, .respond 1 20448,
        .invoke 0 (.call 0 (.free 12272) (.answering 0)), .respond 0 0,
        .invoke 0 (.call 0 (.malloc 4) (.answering 64)), .respond 0 64] := rfl
  have hsaw : ∀ t, t ∉ [0, 1] → Interleaved.sawOf (.tools true true true 8) loseOther t = [] := by
    intro t ht
    simp only [List.mem_cons, List.not_mem_nil, or_false, not_or] at ht
    rw [Interleaved.sawOf, hhist]
    simp [completed, Ne.symm ht.1, Ne.symm ht.2]
  have hdone : ∀ t, (exec (Interleaved.next (.tools true true true 8))
      (.start (.tools true true true 8)) loseOther).place t = .outside := by
    refine Interleaved.done_of_tids _ [0, 1] (by decide) fun t ht => ?_
    rcases List.mem_pair.mp ht with rfl | rfl <;> rfl
  have hrule : ∀ t, Along ThreadView.next (ThreadView.Clean (.tools true true true 8)) .start
      (Interleaved.sawOf (.tools true true true 8) loseOther t) := by
    intro t
    by_cases ht : t ∈ [0, 1]
    · have hfits : ∀ n ∈ [0, 4, 8, 24],
          (HuConfig.tools true true true 8).mallocConfig.Fits n := by decide
      rcases List.mem_pair.mp ht with rfl | rfl
      · exact ⟨⟨.inl rfl, by decide, fun _ _ _ => hfits 8 (by decide)⟩,
          ⟨.inr (by decide), by decide, fun _ _ _ => hfits 0 (by decide)⟩,
          ⟨.inl rfl, by decide, fun _ _ _ => hfits 4 (by decide)⟩, trivial⟩
      · exact ⟨⟨.inl rfl, by decide, fun _ _ _ => hfits 24 (by decide)⟩, trivial⟩
    · rw [hsaw t ht]
      trivial
  have hfrees : ∀ p ∈ loseOtherFrees.map Prod.fst,
      (p = 0 ∨ (exec (Interleaved.next (.tools true true true 8))
        (.start (.tools true true true 8)) loseOther).tool.Foreign p) ∨
        ∃ t, p ∈ (Interleaved.viewOf (.tools true true true 8) loseOther t).blocks.ptrs := by
    have hall : ∀ p ∈ loseOtherFrees.map Prod.fst,
        (p = 0 ∨ (exec (Interleaved.next (.tools true true true 8))
          (.start (.tools true true true 8)) loseOther).tool.Foreign p) ∨
          p ∈ (Interleaved.viewOf (.tools true true true 8) loseOther 0).blocks.ptrs := by decide
    exact fun p hp => (hall p hp).imp id fun h => ⟨0, h⟩
  have hvalues : values (exec (Interleaved.next (.tools true true true 8))
      (.start (.tools true true true 8)) (loseOther ++ Turn.freeres 0 loseOtherFrees)
      ).tool.log.allocations = [⟨20448, 24, [1, 2], [], 1⟩] := by decide
  have hquiet : (exec (Interleaved.next (.tools true true true 8))
      (.start (.tools true true true 8)) (loseOther ++ Turn.freeres 0 loseOtherFrees)
      ).tool.log.logFile = [] := List.isEmpty_iff.mp (by decide)
  obtain ⟨s, blocks, hfile, haccounts, -, hblocks⟩ := threads_leak_report (.tools true true true 8)
    rfl rfl loseOther
    (by simp only [loseOther, along_cons, along_nil, Interleaved.Undisturbed, and_true]) hdone hrule
    0 loseOtherFrees hfrees (by decide) [⟨20448, 24, [1, 2], [], 1⟩] (by rw [hvalues]) (by decide)
  rw [hquiet] at hfile
  refine ⟨s, blocks, hfile, haccounts, fun r => (hblocks r).trans ⟨?_, ?_⟩⟩
  · rintro ⟨⟨t, ht⟩, hkept⟩
    by_cases hmem : t ∈ [0, 1]
    · rcases List.mem_pair.mp hmem with rfl | rfl
      · exact absurd (show r ∈ [] from ht) List.not_mem_nil
      · exact List.mem_singleton.mp (show r ∈ [_] from ht)
    · rw [Interleaved.viewOf, hsaw t hmem] at ht
      exact absurd ht List.not_mem_nil
  · rintro rfl
    exact ⟨⟨1, by decide⟩, by decide⟩

end Heapusage
