/-
Heapusage.Client.Threads — the threads of a program share a C heap.

A thread knows the blocks it holds and passes no others to the wrappers. That is a
rule about its own calls alone; how they fall in with those of the other threads it
cannot know. The calls are atomic (`Main.Atomicity`), and one after the other they
are steps of the C heap (`Client.LifeCycle`), so the threads share one heap, in which
each has its blocks to itself.

§1 Views    — what a thread knows of itself, and the rule it keeps to.
§2 Holders  — the blocks of the program, each with the thread that holds it.
§3 Steps    — one operation, whatever the views of the other threads.
§4 Runs (`threads_share_heap`).
-/
import Heapusage.Client.LifeCycle
import Heapusage.Main.Atomicity

namespace Heapusage

open Arenas CHeaps Runs Atomic

/-! ## §1 Views -/

/-- What a thread knows of itself: the blocks it holds, the callstack of its last
call that returned an address, and whether it is bypassed. -/
structure ThreadView where
  blocks : ClientHeap
  birth : Nat → Callstack
  bypassed : Bool

namespace ThreadView

/-- A thread at its start. -/
def start : ThreadView := ⟨[], fun _ => [], false⟩

/-- A thread after an operation of its own with the answer it got. -/
def next (V : ThreadView) : Step × Nat → ThreadView
  | (.call _ call env, q) =>
      { V with
        blocks := call.after true q V.blocks
        birth := fun p => if p = q then env.allocStack else V.birth p }
  | (.report _ .disable, _) => { V with bypassed := true }
  | (.report _ (.summary _), _) => V
  | (.report _ .enable, _) => { V with bypassed := false }
  | (.fini _ .disable, _) => { V with bypassed := true }
  | (.fini _ (.summary _), _) => V
  | (.fini _ .restore, _) => { V with bypassed := false }

/-- A call on null or a block of the thread's own, outside its reports, that
succeeds, with `mprotect` succeeding and a fenced size that does not wrap. -/
structure Serves (c : HuConfig) (V : ThreadView) (call : Call) (env : CallEnv) (q : Nat) :
    Prop where
  tracked : V.bypassed = false
  permitted : call.Permitted V.blocks
  fits : c.huEnableHumalloc = true → 0 < call.requested → c.huMinsize ≤ call.requested →
    c.mallocConfig.Fits call.requested
  mprotectOk : ∀ addr len prot, env.ans.mprotectOk addr len prot = true
  succeeds : ¬ call.Failed q

/-- The rule of a thread. -/
def Obeys (c : HuConfig) (V : ThreadView) : Step × Nat → Prop
  | (.call _ call env, q) => V.Serves c call env q
  | _ => True

end ThreadView

/-- What the C heap has to do with an operation: a call is a step of it, with the
answer the thread got and the blocks apart afterwards; a phase of a report or of
`hu_fini` leaves it as it is. -/
def OnHeap (H : CHeaps.Heap UInt8) : Tid × Step × Nat → CHeaps.Heap UInt8 → Prop
  | (_, .call _ call env, q), H' =>
      CHeaps.Step 0 H (ClientInput.call ⟨call, env.ans⟩).op q H' ∧ H'.Separate
  | _, H' => H' = H

/-! ## §2 Holders -/

/-- The blocks `L` of the program, each held by one thread. -/
structure ClientHeap.HeldBy (L : ClientHeap) (own : Tid → ClientHeap) : Prop where
  nodup : ∀ t, (own t).ptrs.Nodup
  held : ∀ p n, (p, n) ∈ L ↔ ∃ t, (p, n) ∈ own t
  apart : ∀ t u p, p ∈ (own t).ptrs → p ∈ (own u).ptrs → t = u

namespace ClientHeap.HeldBy

variable {L : ClientHeap} {own : Tid → ClientHeap} {t : Tid}

theorem start : ClientHeap.HeldBy [] fun _ => [] where
  nodup _ := List.nodup_nil
  held _ _ := ⟨fun h => absurd h List.not_mem_nil, fun ⟨_, h⟩ => absurd h List.not_mem_nil⟩
  apart _ _ _ h _ := absurd h List.not_mem_nil

theorem ptrs (h : L.HeldBy own) {p : Nat} (hp : p ∈ (own t).ptrs) : p ∈ L.ptrs := by
  obtain ⟨⟨q, n⟩, hq, rfl⟩ := List.mem_map.mp hp
  exact List.mem_map_of_mem ((h.held q n).mpr ⟨t, hq⟩)

/-- A thread gives up a block of its own. -/
theorem drop (h : L.HeldBy own) (hL : L.ptrs.Nodup) {p : Nat} (hp : p ∈ (own t).ptrs) :
    (L.drop p).HeldBy (Function.update own t ((own t).drop p)) where
  nodup u := by
    by_cases hu : u = t
    · subst hu
      rw [Function.update_self]
      exact ClientHeap.ptrs_drop_nodup p (h.nodup u)
    · rw [Function.update_of_ne hu]
      exact h.nodup u
  held q n := by
    rw [ClientHeap.mem_drop hL, h.held]
    constructor
    · rintro ⟨⟨u, hq⟩, hne⟩
      refine ⟨u, ?_⟩
      by_cases hu : u = t
      · subst hu
        rw [Function.update_self]
        exact (ClientHeap.mem_drop (h.nodup u)).mpr ⟨hq, hne⟩
      · rwa [Function.update_of_ne hu]
    · rintro ⟨u, hq⟩
      by_cases hu : u = t
      · subst hu
        rw [Function.update_self] at hq
        obtain ⟨hq, hne⟩ := (ClientHeap.mem_drop (h.nodup u)).mp hq
        exact ⟨⟨u, hq⟩, hne⟩
      · rw [Function.update_of_ne hu] at hq
        refine ⟨⟨u, hq⟩, fun heq => hu ?_⟩
        exact h.apart u t p (heq ▸ List.mem_map_of_mem hq) hp
  apart u v q hu hv := by
    have hsub : ∀ w, q ∈ (Function.update own t ((own t).drop p) w).ptrs → q ∈ (own w).ptrs := by
      intro w hw
      by_cases hwt : w = t
      · subst hwt
        rw [Function.update_self] at hw
        exact ((ClientHeap.drop_sublist p _).map _).subset hw
      · rwa [Function.update_of_ne hwt] at hw
    exact h.apart u v q (hsub u hu) (hsub v hv)

/-- A thread receives a block nobody holds. -/
theorem receive (h : L.HeldBy own) {q : Nat} (hnew : q ≠ 0 → q ∉ L.ptrs) (n : Nat) :
    (L.receive q n).HeldBy (Function.update own t ((own t).receive q n)) := by
  by_cases hq : q = 0
  · rw [ClientHeap.receive, ClientHeap.receive, if_pos hq, if_pos hq, Function.update_eq_self]
    exact h
  rw [ClientHeap.receive, ClientHeap.receive, if_neg hq, if_neg hq]
  have hnone : ∀ u, q ∉ (own u).ptrs := fun u hu => hnew hq (h.ptrs hu)
  have hmem : ∀ u b, b ∈ Function.update own t ((q, n) :: own t) u ↔
      (u = t ∧ b = (q, n)) ∨ b ∈ own u := by
    intro u b
    by_cases hu : u = t
    · subst hu
      simp
    · simp [hu]
  have hptrs : ∀ u p, p ∈ (Function.update own t ((q, n) :: own t) u).ptrs →
      (u = t ∧ p = q) ∨ p ∈ (own u).ptrs := by
    intro u p hp
    obtain ⟨b, hb, rfl⟩ := List.mem_map.mp hp
    rcases (hmem u b).mp hb with ⟨hut, rfl⟩ | hb
    · exact .inl ⟨hut, rfl⟩
    · exact .inr (List.mem_map_of_mem hb)
  refine ⟨fun u => ?_, fun p m => ?_, fun u v p hu hv => ?_⟩
  · by_cases hu : u = t
    · subst hu
      rw [Function.update_self]
      exact List.nodup_cons.mpr ⟨hnone u, h.nodup u⟩
    · rw [Function.update_of_ne hu]
      exact h.nodup u
  · rw [List.mem_cons, h.held]
    constructor
    · rintro (heq | ⟨u, hp⟩)
      · exact ⟨t, (hmem t _).mpr (.inl ⟨rfl, heq⟩)⟩
      · exact ⟨u, (hmem u _).mpr (.inr hp)⟩
    · rintro ⟨u, hp⟩
      exact ((hmem u _).mp hp).imp And.right fun hp => ⟨u, hp⟩
  · rcases hptrs u p hu with ⟨hut, hpq⟩ | hold
    · rcases hptrs v p hv with ⟨hvt, -⟩ | hold'
      · rw [hut, hvt]
      · exact absurd (hpq ▸ hold') (hnone v)
    · rcases hptrs v p hv with ⟨-, hpq⟩ | hold'
      · exact absurd (hpq ▸ hold) (hnone u)
      · exact h.apart u v p hold hold'

/-- A call of thread `t` that does not fail, on a block of its own. -/
theorem after (h : L.HeldBy own) (hL : L.ptrs.Nodup) (hnull : 0 ∉ L.ptrs) {call : Call} {q : Nat}
    (hperm : call.Permitted (own t)) (hfree : ∀ ptr, call = .free ptr → q = 0)
    (hok : ¬ call.Failed q) {kept : Bool} (hafter : (call.after kept q L).ptrs.Nodup) :
    (call.after kept q L).HeldBy (Function.update own t (call.after true q (own t))) := by
  have hnullt : 0 ∉ (own t).ptrs := fun h0 => hnull (h.ptrs h0)
  rw [Call.after_eq kept hnull hfree hok] at hafter ⊢
  rw [Call.after_eq true hnullt hfree hok]
  have hdrop : (L.drop call.argument).HeldBy
      (Function.update own t ((own t).drop call.argument)) := by
    rcases hperm with hzero | hmem
    · rw [hzero, ClientHeap.drop_of_not_mem hnull, ClientHeap.drop_of_not_mem hnullt,
        Function.update_eq_self]
      exact h
    · exact h.drop hL hmem
  have hreceive := hdrop.receive (t := t) (ClientHeap.receive_fresh hafter) call.requested
  rwa [Function.update_self, Function.update_idem] at hreceive

end ClientHeap.HeldBy

/-- The blocks of the views when one thread has another one. -/
theorem ThreadView.blocks_update (V : Tid → ThreadView) (t : Tid) (x : ThreadView) :
    (fun u => (Function.update V t x u).blocks) =
      Function.update (fun u => (V u).blocks) t x.blocks :=
  funext fun u => Function.apply_update (fun _ => ThreadView.blocks) V t x u

/-! ## §3 Steps -/

/-- What holds between the operations: the views are right about the thread-local
variables and the blocks, and the heap is the one of a process in its life. -/
structure Shares (c : HuConfig) (P : Process) (V : Tid → ThreadView) (L : ClientHeap) : Prop where
  flags : ∀ t, (P.tls t).huBypass = (V t).bypassed
  counts : ∀ t, (P.tls t).huCallcount = 0
  life : LifeInv c ⟨⟨P.tool, L⟩, true⟩
  holders : L.HeldBy fun t => (V t).blocks

namespace Shares

variable {c : HuConfig} {P P' : Process} {V : Tid → ThreadView} {L : ClientHeap} {t : Tid}

theorem start (c : HuConfig) : Shares c (.start c) (fun _ => .start) [] where
  flags _ := rfl
  counts _ := rfl
  life := (LifeInv.start (c := c)).next (i := .init) rfl
  holders := .start

theorem nodup (h : Shares c P V L) : L.ptrs.Nodup ∧ 0 ∉ L.ptrs := by
  obtain ⟨m, hinv⟩ := h.life.alloc
  exact ⟨hinv.heap.client_nodup, hinv.heap.null_not_held⟩

/-- The call of a thread that is not bypassed, in the life of the process. -/
theorem result_eq (h : Shares c P V L) (ht : (V t).bypassed = false) (call : Call)
    (env : CallEnv) :
    P.result c t call env = Life.result c ⟨⟨P.tool, L⟩, true⟩ ⟨call, env⟩ := by
  have htracks : (P.tls t).tracks = true :=
    ThreadLocal.tracks_iff.mpr ⟨(h.flags t).trans ht, h.counts t⟩
  have hlife : Life.result c ⟨⟨P.tool, L⟩, true⟩ ⟨call, env⟩ =
      wrapper c env .fresh call P.tool := rfl
  rw [hlife, Process.result, wrapper_eq, htracks, tracked_eq, if_pos rfl]

/-- A thread calls a wrapper. -/
theorem call (h : Shares c P V L) (call : Call) (env : CallEnv)
    (hs : (V t).Serves c call env (P.result c t call env).2) :
    ∃ L', CHeaps.Step 0 (P.tool.blocks L) (ClientInput.call ⟨call, env.ans⟩).op
        (P.result c t call env).2 ((P.result c t call env).1.blocks L') ∧
      ((P.result c t call env).1.blocks L').Separate ∧
      Shares c { P with tool := (P.result c t call env).1 }
        (Function.update V t ((V t).next (.call t call env, (P.result c t call env).2))) L' := by
  obtain ⟨hnd, hnull⟩ := h.nodup
  rw [h.result_eq hs.tracked] at hs ⊢
  have hserves : Life.Serves c ⟨⟨P.tool, L⟩, true⟩ ⟨call, env⟩ :=
    { permitted := hs.permitted.imp id fun hp => h.holders.ptrs hp
      fits := hs.fits
      mprotectOk := hs.mprotectOk
      succeeds := hs.succeeds }
  have hnext := h.life.call hserves
  have hfree : ∀ ptr, call = .free ptr →
      (Life.result c ⟨⟨P.tool, L⟩, true⟩ ⟨call, env⟩).2 = 0 := by
    rintro ptr rfl
    rw [Life.result_snd, Life.half, allocHalf]
    split <;> rfl
  refine ⟨_, h.life.call_step hserves, hnext.separate, ?_, h.counts, hnext, ?_⟩
  · intro u
    by_cases hu : u = t
    · subst hu
      rw [Function.update_self]
      exact h.flags u
    · rw [Function.update_of_ne hu]
      exact h.flags u
  · obtain ⟨m, hinv⟩ := hnext.alloc
    rw [ThreadView.blocks_update]
    exact h.holders.after hnd hnull hs.permitted hfree hs.succeeds hinv.heap.client_nodup

/-- A thread goes through a phase of a report or of `hu_fini`. -/
theorem phase (h : Shares c P V L) (hsys : P'.tool.sys = P.tool.sys)
    (hmal : P'.tool.mal = P.tool.mal) (hcounts : ∀ u, (P'.tls u).huCallcount = 0)
    {x : ThreadView} (hblocks : x.blocks = (V t).blocks) (hself : (P'.tls t).huBypass = x.bypassed)
    (hothers : ∀ u, u ≠ t → (P'.tls u).huBypass = (P.tls u).huBypass) :
    P'.tool.blocks L = P.tool.blocks L ∧ Shares c P' (Function.update V t x) L := by
  refine ⟨HuState.blocks_eq fun _ _ _ _ _ => by rw [hsys], ?_, hcounts, h.life.congr hsys hmal, ?_⟩
  · intro u
    by_cases hu : u = t
    · subst hu
      rw [Function.update_self, hself]
    · rw [Function.update_of_ne hu, hothers u hu, h.flags u]
  · rw [ThreadView.blocks_update, hblocks, Function.update_eq_self]
    exact h.holders

/-- A phase that sets the flag of its thread. -/
theorem flag (h : Shares c P V L) (hsys : P'.tool.sys = P.tool.sys)
    (hmal : P'.tool.mal = P.tool.mal) {bypass : Bool}
    (htls : P'.tls = (P.onThread t (·.huSetBypass bypass)).tls) :
    P'.tool.blocks L = P.tool.blocks L ∧
      Shares c P' (Function.update V t { V t with bypassed := bypass }) L := by
  refine h.phase hsys hmal (fun u => ?_) rfl ?_ fun u hu => ?_
  · rw [htls, Interleaved.setBypass_count]
    exact h.counts u
  · rw [htls, Process.onThread_tls, if_pos rfl]
    rfl
  · rw [htls, Interleaved.onThread_other hu]

/-- An operation of a thread that keeps to its rule. -/
theorem next (h : Shares c P V L) {i : Step} (htid : i.tid = t)
    (hi : (V t).Obeys c (i, (P.apply c i).2)) :
    ∃ L', OnHeap (P.tool.blocks L) (t, i, (P.apply c i).2) ((P.apply c i).1.tool.blocks L') ∧
      Shares c (P.apply c i).1 (Function.update V t ((V t).next (i, (P.apply c i).2))) L' := by
  subst htid
  cases i with
  | call u call env =>
    obtain ⟨L', hstep, hsep, hnext⟩ := h.call call env hi
    exact ⟨L', ⟨hstep, hsep⟩, hnext⟩
  | report u phase =>
    obtain ⟨hsys, hmal⟩ := P.huReport_heap c u phase
    refine ⟨L, ?_⟩
    cases phase with
    | disable => exact h.flag hsys hmal rfl
    | summary order => exact h.phase hsys hmal h.counts rfl (h.flags u) fun _ _ => rfl
    | enable => exact h.flag hsys hmal rfl
  | fini u phase =>
    obtain ⟨hsys, hmal⟩ := P.huFini_heap c u phase
    refine ⟨L, ?_⟩
    cases phase with
    | disable => exact h.flag hsys hmal rfl
    | summary order => exact h.phase hsys hmal h.counts rfl (h.flags u) fun _ _ => rfl
    | restore => exact h.flag hsys hmal rfl

/-- A serial run of threads that keep to their rules. -/
theorem run (h : Shares c P V L) {es : List (Tid × Step × Nat)}
    (hserial : Serial (Process.apply c) P es P')
    (hrules : ∀ t, Along ThreadView.next (fun V x => x.1.tid = t ∧ V.Obeys c x) (V t)
      (ofThread t es)) :
    ∃ L', Traced OnHeap (P.tool.blocks L) es (P'.tool.blocks L') ∧
      Shares c P' (fun t => exec ThreadView.next (V t) (ofThread t es)) L' := by
  obtain ⟨H, htrace, L', rfl, hshares⟩ := Serial.views (T := OnHeap)
    (R := fun P V H => ∃ L, P.tool.blocks L = H ∧ Shares c P V L)
    (fun P V H t i ⟨L, hH, hshares⟩ ⟨htid, hobeys⟩ => by
      obtain ⟨L', hstep, hnext⟩ := hshares.next htid hobeys
      exact ⟨_, hH ▸ hstep, L', rfl, hnext⟩)
    es ⟨L, rfl, h⟩ hserial hrules
  exact ⟨L', htrace, hshares⟩

theorem accessible (h : Shares c P V L) {p n k : Nat} (hp : (p, n) ∈ L) (hk : k < n) :
    P.tool.sys.prot (p + k) = .readWrite := h.life.accessible hp hk

end Shares

/-! ## §4 Runs -/

namespace Interleaved

/-- A thread invokes operations of its own only. -/
theorem sees_tid (M : Interleaved) (turn : Turn) {t : Tid} {i : Step}
    (h : Event.invoke t i ∈ M.sees turn) : i.tid = t := by
  cases turn with
  | call u call env =>
    simp only [sees] at h
    split at h
    · obtain ⟨rfl, rfl⟩ : t = u ∧ i = .call u call env := by simpa using h
      rfl
    · exact absurd h List.not_mem_nil
  | go u =>
    simp only [sees] at h
    split at h
    · simp at h
    · exact absurd h List.not_mem_nil
  | report u phase =>
    simp only [sees] at h
    split at h
    · obtain ⟨rfl, rfl⟩ : t = u ∧ i = .report u phase := by simpa using h
      rfl
    · exact absurd h List.not_mem_nil
  | fini u phase =>
    simp only [sees] at h
    split at h
    · exact absurd h List.not_mem_nil
    · obtain ⟨rfl, rfl⟩ : t = u ∧ i = .fini u _ := by simpa using h
      rfl
    · exact absurd h List.not_mem_nil

theorem history_tid (c : HuConfig) {t : Tid} {i : Step} : ∀ (turns : List Turn) (M : Interleaved),
    Event.invoke t i ∈ history (Interleaved.next c) sees M turns → i.tid = t := by
  intro turns
  induction turns with
  | nil => exact fun _ h => absurd h List.not_mem_nil
  | cons turn turns ih =>
    intro M h
    rcases List.mem_append.mp h with h | h
    · exact sees_tid M turn h
    · exact ih _ h

/-- What thread `t` has seen of a run: its operations with their answers. -/
def sawOf (c : HuConfig) (turns : List Turn) (t : Tid) : List (Step × Nat) :=
  completed t none (history (Interleaved.next c) sees (.start c) turns)

/-- What it knows of itself then. -/
def viewOf (c : HuConfig) (turns : List Turn) (t : Tid) : ThreadView :=
  exec ThreadView.next .start (sawOf c turns t)

/-- The operations of a run in an order, those of each thread under the rule it
keeps to. -/
theorem exists_order {c : HuConfig} {turns : List Turn}
    (hturns : Along (Interleaved.next c) Undisturbed (.start c) turns)
    (hdone : ∀ t, (exec (Interleaved.next c) (.start c) turns).place t = .outside)
    {ok : ThreadView → Step × Nat → Prop}
    (hrule : ∀ t, Along ThreadView.next ok .start (sawOf c turns t)) :
    ∃ order : List (Tid × Step × Nat),
      Serial (Process.apply c) (.start c) order
        (exec (Interleaved.next c) (.start c) turns).toProcess ∧
      (∀ t, ofThread t order = sawOf c turns t) ∧
      ∀ t, Along ThreadView.next (fun V x => x.1.tid = t ∧ ok V x) .start (ofThread t order) := by
  obtain ⟨ms, X, hpath, hseen, hX⟩ := Matches.run c turns hturns
  obtain ⟨hserial, heffects⟩ := hX.effects hdone hpath
  rw [hseen] at heffects
  refine ⟨_, hserial, heffects, fun t => ?_⟩
  rw [heffects t]
  refine Along.and _ _ (along_of_forall _ (fun x hx => ?_) _) (hrule t)
  exact history_tid c turns _ ((mem_completed _ hx).resolve_left (Option.some_ne_none _ ·.symm))

/-- A thread that takes no turn is where it started. -/
theorem done_of_tids (c : HuConfig) {turns : List Turn} (ts : List Tid)
    (htids : ∀ i ∈ turns, i.tid ∈ ts)
    (hdone : ∀ t ∈ ts, (exec (Interleaved.next c) (.start c) turns).place t = .outside) (t : Tid) :
    (exec (Interleaved.next c) (.start c) turns).place t = .outside := by
  by_cases ht : t ∈ ts
  · exact hdone t ht
  · refine exec_place c turns (.start c) fun hmem => ?_
    obtain ⟨i, hi, rfl⟩ := List.mem_map.mp hmem
    exact ht (htids i hi)

end Interleaved

/-- **The threads of a program share a C heap**: in every run of the threads, however
their calls are interleaved, if each of them passes only blocks of its own, all that
the threads do is, in an order that is each thread's own with the answers it got, a
sequence of steps of the C heap; and when all threads have returned, the blocks of the
program are those the threads hold, no block is held by two of them, and their bytes
are readable and writable. -/
theorem threads_share_heap (c : HuConfig) (turns : List Turn)
    (hturns : Along (Interleaved.next c) Interleaved.Undisturbed (.start c) turns)
    (hdone : ∀ t, (exec (Interleaved.next c) (.start c) turns).place t = .outside)
    (hrule : ∀ t, Along ThreadView.next (ThreadView.Obeys c) .start
      (Interleaved.sawOf c turns t)) :
    let tool := (exec (Interleaved.next c) (.start c) turns).tool
    ∃ (order : List (Tid × Step × Nat)) (L : ClientHeap),
      (∀ t, ofThread t order = Interleaved.sawOf c turns t) ∧
      Traced OnHeap [] order (tool.blocks L) ∧
      L.HeldBy (fun t => (Interleaved.viewOf c turns t).blocks) ∧
      ∀ p n, (p, n) ∈ L → ∀ k < n, tool.sys.prot (p + k) = .readWrite := by
  intro tool
  obtain ⟨order, hserial, horder, hrules⟩ := Interleaved.exists_order hturns hdone hrule
  obtain ⟨L, htrace, hshares⟩ := (Shares.start c).run hserial hrules
  refine ⟨order, L, horder, htrace, ?_, fun p n hp k hk => hshares.accessible hp hk⟩
  have hholders := hshares.holders
  simp only [horder] at hholders
  exact hholders

/-- A fenced block and one of the C library, asked for at the same time; the thread
with the fenced one releases it. -/
def twoHolders : List Turn :=
  [.call 0 (.malloc 8) (.answering 8192), .go 0, .call 1 (.malloc 4) (.answering 64), .go 0,
    .go 1, .go 0, .go 0, .go 1, .go 0, .go 1, .go 1, .go 1, .go 1,
    .call 0 (.free 12272) (.answering 0), .go 0, .go 0, .go 0, .go 0, .go 0]

/-- What is left is the block of the other thread. -/
theorem threads_share_heap_two_holders :
    ∃ (order : List (Tid × Step × Nat)) (L : ClientHeap),
      Traced OnHeap [] order ((exec (Interleaved.next (.tools true true true 8))
        (.start (.tools true true true 8)) twoHolders).tool.blocks L) ∧
      ∀ p n, (p, n) ∈ L ↔ p = 64 ∧ n = 4 := by
  have hhist : history (Interleaved.next (.tools true true true 8)) Interleaved.sees
      (.start (.tools true true true 8)) twoHolders =
      [.invoke 0 (.call 0 (.malloc 8) (.answering 8192)),
        .invoke 1 (.call 1 (.malloc 4) (.answering 64)), .respond 0 12272, .respond 1 64,
        .invoke 0 (.call 0 (.free 12272) (.answering 0)), .respond 0 0] := rfl
  have hsaw : ∀ t, t ∉ [0, 1] → Interleaved.sawOf (.tools true true true 8) twoHolders t = [] := by
    intro t ht
    simp only [List.mem_cons, List.not_mem_nil, or_false, not_or] at ht
    rw [Interleaved.sawOf, hhist]
    simp [completed, Ne.symm ht.1, Ne.symm ht.2]
  have hdone : ∀ t, (exec (Interleaved.next (.tools true true true 8))
      (.start (.tools true true true 8)) twoHolders).place t = .outside := by
    refine Interleaved.done_of_tids _ [0, 1] (by decide) fun t ht => ?_
    rcases List.mem_pair.mp ht with rfl | rfl <;> rfl
  have hrule : ∀ t, Along ThreadView.next (ThreadView.Obeys (.tools true true true 8)) .start
      (Interleaved.sawOf (.tools true true true 8) twoHolders t) := by
    intro t
    by_cases ht : t ∈ [0, 1]
    · have hserves : ∀ (V : ThreadView) (call : Call) (ptr q : Nat), V.bypassed = false →
          call.Permitted V.blocks → call.requested ∈ [0, 4, 8] → ¬ call.Failed q →
          V.Serves (.tools true true true 8) call (.answering ptr) q := by
        intro V call ptr q hV hperm hreq hok
        refine ⟨hV, hperm, fun _ _ _ => ?_, fun _ _ _ => rfl, hok⟩
        have hfits : ∀ n ∈ [0, 4, 8], (HuConfig.tools true true true 8).mallocConfig.Fits n := by
          decide
        exact hfits _ hreq
      rcases List.mem_pair.mp ht with rfl | rfl
      · exact ⟨hserves _ _ _ _ rfl (.inl rfl) (by decide) (by decide),
          hserves _ _ _ _ rfl (.inr (by decide)) (by decide) (by decide), trivial⟩
      · exact ⟨hserves _ _ _ _ rfl (.inl rfl) (by decide) (by decide), trivial⟩
    · rw [hsaw t ht]
      trivial
  obtain ⟨order, L, -, htrace, hholders, -⟩ := threads_share_heap (.tools true true true 8)
    twoHolders (by simp only [twoHolders, along_cons, along_nil, Interleaved.Undisturbed, and_true])
    hdone hrule
  refine ⟨order, L, htrace, fun p n => ?_⟩
  rw [hholders.held]
  constructor
  · rintro ⟨t, ht⟩
    by_cases hmem : t ∈ [0, 1]
    · rcases List.mem_pair.mp hmem with rfl | rfl
      · exact absurd (show (p, n) ∈ ([] : ClientHeap) from ht) List.not_mem_nil
      · simpa using (show (p, n) ∈ ([(64, 4)] : ClientHeap) from ht)
    · rw [Interleaved.viewOf, hsaw t hmem] at ht
      exact absurd ht List.not_mem_nil
  · rintro ⟨rfl, rfl⟩
    exact ⟨1, by decide⟩

end Heapusage
