/-
Heapusage.Client.Accounts — the accounts of what a program holds are one.

`Session` has the list of the program's blocks. The results about runs in which sizes
may wrap keep the sizes last requested in a table (`Sizing`), and those about any calls
whatsoever the sets of the fenced and of the pass-through blocks (`Holder`). Where the
invariant of the list holds, the three say the same.

§1 Sizes    — the table has the blocks of the list (`sizes_of_client`).
§2 Holdings — the sets are those of its pointers (`holdings_of_client`).
-/
import Heapusage.Client.Fencing
import Heapusage.Client.Liveness

namespace Heapusage

open Runs Tables

/-! ## §1 Sizes -/

/-- The blocks after a call that did not fail. -/
theorem ClientHeap.mem_receive_drop {L : ClientHeap} (hnd : L.ptrs.Nodup) {a q m p n : Nat} :
    (p, n) ∈ (L.drop a).receive q m ↔ (q ≠ 0 ∧ p = q ∧ n = m) ∨ ((p, n) ∈ L ∧ p ≠ a) := by
  unfold ClientHeap.receive
  split
  · rename_i hq
    simp [hq, ClientHeap.mem_drop hnd]
  · rename_i hq
    simp [hq, ClientHeap.mem_drop hnd]

theorem ClientHeap.mem_ptrs_receive_drop {L : ClientHeap} (hnd : L.ptrs.Nodup) {a q m p : Nat} :
    p ∈ ((L.drop a).receive q m).ptrs ↔ (p ∈ L.ptrs ∧ p ≠ a) ∨ (p = q ∧ q ≠ 0) := by
  constructor
  · intro hp
    obtain ⟨⟨p, n⟩, hb, rfl⟩ := List.mem_map.mp hp
    rcases (mem_receive_drop hnd).mp hb with ⟨hq, hpq, -⟩ | ⟨hold, hne⟩
    · exact .inr ⟨hpq, hq⟩
    · exact .inl ⟨List.mem_map_of_mem hold, hne⟩
  · rintro (⟨hp, hne⟩ | ⟨rfl, hq⟩)
    · obtain ⟨⟨p, n⟩, hb, rfl⟩ := List.mem_map.mp hp
      exact List.mem_map_of_mem ((mem_receive_drop hnd).mpr (.inr ⟨hb, hne⟩))
    · have hnew := (mem_receive_drop hnd (a := a) (m := m)).mpr (.inl ⟨hq, rfl, rfl⟩)
      exact List.mem_map_of_mem hnew

/-- What the program holds the tool knows. -/
theorem HeapInv.known {Λ : Layout} {s : HuState} {L : ClientHeap} (h : HeapInv Λ s L) {p : Nat}
    (hp : p = 0 ∨ p ∈ L.ptrs) : s.Known p := by
  refine hp.imp id fun hmem => ?_
  by_cases hact : p ∈ s.mal.huActiveAllocs
  · exact .inl hact
  · obtain ⟨n, -, hlive⟩ := h.passed_through hmem (AList.lookup_eq_none.mpr hact)
    exact .inr ⟨n, hlive⟩

/-- The table has the blocks of the list, with their sizes. -/
structure Sizing.Follows (τ : Sizing) (σ : Session) : Prop where
  tool : τ.tool = σ.tool
  sizes : ∀ p n, τ.sizes.lookup p = some n ↔ (p, n) ∈ σ.client

namespace Sizing.Follows

variable {c : HuConfig} {σ : Session} {τ : Sizing} {i : Input}

theorem init (c : HuConfig) : (Sizing.init c).Follows (.init c) where
  tool := rfl
  sizes p n := by simp [Sizing.init, Session.init]

theorem mem_iff (h : τ.Follows σ) {p : Nat} : p ∈ τ.sizes ↔ p ∈ σ.client.ptrs := by
  constructor
  · intro hp
    obtain ⟨n, hn⟩ := exists_lookup hp
    exact List.mem_map_of_mem ((h.sizes p n).mp hn)
  · intro hp
    obtain ⟨⟨q, n⟩, hq, rfl⟩ := List.mem_map.mp hp
    exact mem_of_lookup ((h.sizes q n).mpr hq)

theorem result_eq (h : τ.Follows σ) : τ.result c i = σ.result c i := by
  rw [Sizing.result, Session.result, h.tool]

/-- A clean step is one that succeeds. -/
theorem succeeds (h : τ.Follows σ) (hi : σ.Clean c i) : τ.Succeeds c i := by
  refine ⟨hi.permitted.imp id h.mem_iff.mpr, ?_⟩
  rw [h.result_eq]
  exact hi.succeeds

theorem next (h : τ.Follows σ) (hinv : SessionInv c σ) (hi : σ.Clean c i) :
    (τ.next c i).Follows (σ.next c i) := by
  have hnd := hinv.heap.client_nodup
  have hclient : (σ.next c i).client =
      (σ.client.drop i.call.argument).receive (σ.result c i).2 i.call.requested :=
    Call.after_eq true hinv.heap.null_not_held (Session.result_free c σ i) hi.succeeds
  have hfresh := (hinv.next hi.sound).heap.client_nodup
  rw [hclient] at hfresh
  refine ⟨congrArg Prod.fst h.result_eq, fun p n => ?_⟩
  rw [hclient, ClientHeap.mem_receive_drop hnd, ← h.sizes, Sizing.next, Sizing.after, h.result_eq,
    if_neg hi.succeeds]
  by_cases hq : (σ.result c i).2 = 0
  · simp only [hq, if_true, ne_eq, not_true_eq_false, false_and, false_or]
    rw [lookup_erase_eq_some, and_comm]
  · have hother : (p, n) ∈ σ.client → p ≠ i.call.argument → p ≠ (σ.result c i).2 := by
      rintro hp hne rfl
      refine ClientHeap.receive_fresh hfresh hq (List.mem_map_of_mem (a := (_, n)) ?_)
      exact (ClientHeap.mem_drop hnd).mpr ⟨hp, hne⟩
    rw [if_neg hq, lookup_insert_eq_some, lookup_erase_eq_some]
    constructor
    · rintro (⟨hpq, hn⟩ | ⟨-, hne, hp⟩)
      · exact .inl ⟨hq, hpq, hn.symm⟩
      · exact .inr ⟨hp, hne⟩
    · rintro (⟨-, hpq, hn⟩ | ⟨hp, hne⟩)
      · exact .inl ⟨hpq, hn.symm⟩
      · exact .inr ⟨hother ((h.sizes p n).mp hp) hne, hne, hp⟩

end Sizing.Follows

/-- **The table of sizes is the list of blocks**, along every clean run; its steps
succeed, and what it holds the tool knows. -/
theorem sizes_of_client (c : HuConfig) (is : List Input)
    (hrun : Along (Session.next c) (Session.Clean c) (.init c) is) :
    let τ := exec (Sizing.next c) (.init c) is
    Along (Sizing.next c) (Sizing.Succeeds c) (.init c) is ∧
      τ.Follows (exec (Session.next c) (.init c) is) ∧ ∀ p ∈ τ.sizes, τ.tool.Known p := by
  have hstep : ∀ (σ : Session) (τ : Sizing) i, τ.Follows σ ∧ SessionInv c σ → σ.Clean c i →
      τ.Succeeds c i ∧ (τ.next c i).Follows (σ.next c i) ∧ SessionInv c (σ.next c i) :=
    fun _ _ _ ⟨h, hinv⟩ hi => ⟨h.succeeds hi, h.next hinv hi, hinv.next hi.sound⟩
  obtain ⟨halong, hfollows, hinv⟩ := Along.simulates hstep is _ _
    ⟨Sizing.Follows.init c, SessionInv.init c⟩ hrun
  refine ⟨halong, hfollows, fun p hp => ?_⟩
  rw [hfollows.tool]
  exact hinv.heap.known (.inr (hfollows.mem_iff.mp hp))

/-! ## §2 Holdings -/

namespace Holdings

/-- The account has the pointer as that of a live block. -/
def Has (H : Holdings) (p : Nat) : Prop := p ∈ H.fenced ∨ p ∈ H.plain

variable {c : MallocConfig} {H : Holdings} {call : Call} {p q : Nat}

theorem has_drop : (H.drop q).Has p ↔ H.Has p ∧ p ≠ q := by
  unfold Has drop
  simp only [Finset.mem_erase]
  tauto

theorem has_receive : (H.receive c call q).Has p ↔ H.Has p ∨ (p = q ∧ q ≠ 0) := by
  unfold Has
  rw [mem_receive_fenced, mem_receive_plain]
  by_cases hf : H.Fences c call
  · simp only [hf, not_true_eq_false, and_true, and_false, or_false]
    tauto
  · simp only [hf, not_false_eq_true, and_true, and_false, or_false]
    tauto

end Holdings

/-- The sets have the pointers of the list. -/
structure Holder.Follows (τ : Holder) (σ : Session) : Prop where
  tool : τ.tool = σ.tool
  ptrs : ∀ p, τ.holds.Has p ↔ p ∈ σ.client.ptrs

namespace Holder.Follows

variable {c : MallocConfig} {lc : LogConfig} {σ : Session} {τ : Holder} {i : AllocInput}

theorem init (l : LogState) : (Holder.init l).Follows (.allocInit l) where
  tool := rfl
  ptrs p := by simp [Holder.init, Session.allocInit, Holdings.Has, ClientHeap.ptrs]

/-- A fenced block is resized to another place. -/
theorem moved (hinv : AllocInv c σ) (hi : σ.Handles c i)
    (hact : i.call.argument ∈ σ.tool.mal.huActiveAllocs)
    (hq : (huCall c lc i.ans i.call σ.tool).2 ≠ 0) :
    (huCall c lc i.ans i.call σ.tool).2 ≠ i.call.argument := by
  have hhandled := hi.handled
  have hfits := hi.fits
  obtain ⟨call, ans⟩ := i
  cases call with
  | malloc size => exact hq
  | calloc nmemb size => exact hq
  | free ptr => exact absurd rfl hq
  | realloc ptr size =>
    simp only [huCall, Call.argument] at hq hact ⊢
    rcases huRealloc_cases c lc ans ptr size σ.tool hinv.inited with ⟨hp, -⟩ | ⟨-, -, heq⟩ |
      ⟨hp, -, b, -, heq⟩ | ⟨-, -, hb, -⟩
    · rwa [hp] at hq ⊢
    · rw [heq] at hq
      exact absurd rfl hq
    · rw [heq]
      exact (hinv.heap.huMalloc_ne c ans size
        (fun hpos hmin => (hfits hpos hmin).takes hpos) (hhandled.resolve_left hp)).symm
    · exact absurd hact (AList.lookup_eq_none.mp hb)

/-- A failed call takes the argument from the program if it is a fenced block. -/
theorem after_failed (hinv : AllocInv c σ) {call : Call} {q : Nat} (hf : call.Failed q) (p : Nat) :
    p ∈ (call.after (σ.tool.keeps call) q σ.client).ptrs ↔
      p ∈ σ.client.ptrs ∧ (call.argument ∈ σ.tool.mal.huActiveAllocs → p ≠ call.argument) := by
  have hnull := hinv.heap.null_not_active
  obtain ⟨hreq, rfl⟩ := hf
  cases call with
  | malloc size => simp [Call.after, ClientHeap.receive, Call.argument, hnull]
  | free ptr => exact absurd rfl hreq
  | calloc nmemb size => simp [Call.after, ClientHeap.receive, Call.argument, hnull]
  | realloc ptr size =>
    have hsize : size ≠ 0 := hreq
    by_cases hp : ptr = 0
    · simp [Call.after, ClientHeap.receive, Call.argument, hp, hnull]
    by_cases hact : ptr ∈ σ.tool.mal.huActiveAllocs
    · obtain ⟨b, hb⟩ := exists_lookup hact
      simp [Call.after, HuState.keeps, Call.argument, hp, hsize, hact, hb, ClientHeap.ptrs_drop,
        hinv.heap.client_nodup.mem_erase_iff, and_comm]
    · simp [Call.after, HuState.keeps, Call.argument, hp, hsize, hact, AList.lookup_eq_none.mpr hact]

theorem next (h : τ.Follows σ) (hinv : AllocInv c σ) (hhold : HoldInv τ) (hi : σ.Handles c i) :
    (τ.next c lc i).Follows (σ.allocNext c lc i) := by
  have hnull := hinv.heap.null_not_held
  have hfenced : i.call.argument ∈ τ.holds.fenced ↔
      i.call.argument ∈ σ.tool.mal.huActiveAllocs := by
    by_cases h0 : i.call.argument = 0
    · rw [h0]
      exact iff_of_false hhold.null.1 hinv.heap.null_not_active
    · rw [← h.tool, hhold.active _ h0]
  refine ⟨by rw [Holder.next, Session.allocNext, h.tool], fun p => ?_⟩
  simp only [Holder.next, Session.allocNext, Holdings.after, h.tool]
  by_cases hf : i.call.Failed (huCall c lc i.ans i.call σ.tool).2
  · rw [after_failed hinv hf, ← h.ptrs, if_pos hf, hf.2]
    split
    · rename_i harg
      rw [Holdings.receive, if_pos rfl, Holdings.has_drop]
      exact and_congr_right fun _ => ⟨fun hne _ => hne, fun hne => hne (hfenced.mp harg)⟩
    · rename_i harg
      exact ⟨fun hp => ⟨hp, fun hact => absurd (hfenced.mpr hact) harg⟩, And.left⟩
  · rw [Call.after_eq _ hnull (fun _ => huCall_free i.ans i.call σ.tool c lc) hf,
      ClientHeap.mem_ptrs_receive_drop hinv.heap.client_nodup, ← h.ptrs, if_neg hf]
    split
    · rename_i harg
      rw [Holdings.has_drop, Holdings.has_receive]
      constructor
      · rintro ⟨hold | hnew, hne⟩
        · exact .inl ⟨hold, hne⟩
        · exact .inr hnew
      · rintro (⟨hold, hne⟩ | ⟨rfl, hq⟩)
        · exact ⟨.inl hold, hne⟩
        · exact ⟨.inr ⟨rfl, hq⟩, moved hinv hi (hfenced.mp harg) hq⟩
    · rw [Holdings.has_receive, Holdings.has_drop]

end Holder.Follows

/-- **The sets of fenced and pass-through blocks are the list of blocks**, along every
run of the allocator on what it has blocks for. -/
theorem holdings_of_client (c : MallocConfig) (lc : LogConfig) (l : LogState)
    (is : List AllocInput)
    (hrun : Along (Session.allocNext c lc) (Session.Handles c) (.allocInit l) is) :
    (exec (Holder.next c lc) (.init l) is).Follows
      (exec (Session.allocNext c lc) (.allocInit l) is) := by
  have hstep : ∀ (σ : Session) (τ : Holder) i, τ.Follows σ ∧ AllocInv c σ ∧ HoldInv τ →
      σ.Handles c i → True ∧ (τ.next c lc i).Follows (σ.allocNext c lc i) ∧
        AllocInv c (σ.allocNext c lc i) ∧ HoldInv (τ.next c lc i) :=
    fun _ _ i ⟨h, hinv, hhold⟩ hi =>
      ⟨trivial, h.next hinv hhold hi, hinv.next hi, hhold.next i⟩
  exact (Along.simulates hstep is _ _
    ⟨Holder.Follows.init l, AllocInv.init l, HoldInv.init l⟩ hrun).2.1

end Heapusage
