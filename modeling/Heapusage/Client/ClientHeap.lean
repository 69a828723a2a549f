/-
Heapusage.Client.ClientHeap — the heap as the program under analysis sees it.

The abstract state is a list of blocks, each a pointer with the size last
requested for it. It is a list and not a map: were the allocator to hand out
a pointer the program already holds, both blocks would be there, and a free
takes away one of them.

`Call.after` says what a call does to the list, from its arguments and the
pointer it returned alone. A failed `realloc` to a non-zero size leaves the
block with the program under the C rules (`kept := true`); `kept := false`
is the reading in which the block is gone.
-/
import Heapusage.Main.HuMainTheorems

namespace Heapusage

/-- The blocks the program holds, with their requested sizes. -/
abbrev ClientHeap := List (Nat × Nat)

namespace ClientHeap

/-- The pointers the program holds. -/
def ptrs (L : ClientHeap) : List Nat := L.map Prod.fst

/-- The program gives up the block at `p`. -/
def drop (p : Nat) (L : ClientHeap) : ClientHeap := L.eraseP (fun b => b.1 = p)

/-- The program receives `q`; null is no block. -/
def receive (q : Nat) (size : Nat) (L : ClientHeap) : ClientHeap :=
  if q = 0 then L else (q, size) :: L

theorem drop_sublist (p : Nat) (L : ClientHeap) : List.Sublist (drop p L) L :=
  List.eraseP_sublist

theorem ptrs_drop_nodup {L : ClientHeap} (p : Nat) (h : L.ptrs.Nodup) : (drop p L).ptrs.Nodup :=
  h.sublist ((drop_sublist p L).map _)

/-- Without repeated pointers, dropping removes exactly the block named. -/
theorem mem_drop {L : ClientHeap} (hnd : L.ptrs.Nodup) {p q : Nat} {n : Nat} :
    (q, n) ∈ drop p L ↔ (q, n) ∈ L ∧ q ≠ p := by
  induction L with
  | nil => simp [drop]
  | cons b L ih =>
    obtain ⟨hb, hrest⟩ := List.nodup_cons.mp hnd
    have ih := ih hrest
    by_cases hbp : b.1 = p
    · have hkeep : drop p (b :: L) = L := by simp [drop, hbp]
      rw [hkeep]
      constructor
      · intro hmem
        refine ⟨List.mem_cons_of_mem _ hmem, fun hq => hb ?_⟩
        exact List.mem_map.mpr ⟨(q, n), hmem, by simp [hq, hbp]⟩
      · intro hboth
        obtain ⟨hmem, hq⟩ := hboth
        rcases List.mem_cons.mp hmem with rfl | hmem
        · exact absurd hbp hq
        · exact hmem
    · have hkeep : drop p (b :: L) = b :: drop p L := by simp [drop, hbp]
      rw [hkeep, List.mem_cons, List.mem_cons, ih]
      constructor
      · rintro (rfl | ⟨hmem, hq⟩)
        · exact ⟨.inl rfl, hbp⟩
        · exact ⟨.inr hmem, hq⟩
      · intro hboth
        obtain ⟨rfl | hmem, hq⟩ := hboth
        · exact .inl rfl
        · exact .inr ⟨hmem, hq⟩

theorem drop_of_not_mem {L : ClientHeap} {p : Nat} (h : p ∉ L.ptrs) : drop p L = L := by
  refine List.eraseP_of_forall_not fun b hb => ?_
  simp only [decide_eq_true_eq]
  intro hbp
  exact h (List.mem_map.mpr ⟨b, hb, hbp⟩)

/-- Receiving one pointer and dropping another commute. -/
theorem drop_receive {p q : Nat} (h : q ≠ p) (n : Nat) (L : ClientHeap) :
    drop p (receive q n L) = receive q n (drop p L) := by
  unfold receive
  split
  · rfl
  · simp [drop, h]

theorem mem_ptrs_receive {p q : Nat} {n : Nat} {L : ClientHeap} (h : p ∈ L.ptrs) :
    p ∈ (receive q n L).ptrs := by
  unfold receive
  split
  · exact h
  · exact List.mem_cons_of_mem _ h

/-- A pointer received next to others it does not repeat is a new one. -/
theorem receive_fresh {L : ClientHeap} {q n : Nat} (hnd : (receive q n L).ptrs.Nodup)
    (hq : q ≠ 0) : q ∉ L.ptrs := by
  rw [receive, if_neg hq] at hnd
  exact (List.nodup_cons.mp hnd).1

/-- A pointer the program holds determines the size. -/
theorem size_unique {L : ClientHeap} (hnd : L.ptrs.Nodup) {p : Nat} {n m : Nat}
    (hn : (p, n) ∈ L) (hm : (p, m) ∈ L) : n = m := by
  have := List.inj_on_of_nodup_map hnd hn hm rfl
  exact congrArg Prod.snd this

end ClientHeap

open ClientHeap

namespace Call

/-- The program passes on null or a block it holds. -/
def Permitted (L : ClientHeap) (call : Call) : Prop :=
  call.argument = 0 ∨ call.argument ∈ L.ptrs

instance (L : ClientHeap) (call : Call) : Decidable (call.Permitted L) :=
  inferInstanceAs (Decidable (_ ∨ _))

/-- The program's heap after a call that returned `q`. -/
def after (kept : Bool) (q : Nat) (L : ClientHeap) : Call → ClientHeap
  | .malloc size => L.receive q size
  | .free ptr => L.drop ptr
  | .calloc nmemb size => L.receive q (nmemb * size)
  | .realloc ptr size =>
      if ptr = 0 then L.receive q size
      else if q = 0 ∧ size ≠ 0 then (if kept then L else L.drop ptr)
      else (L.drop ptr).receive q size

/-- A call that did not fail gives up its argument and receives the result. -/
theorem after_eq {call : Call} {q : Nat} {L : ClientHeap} (kept : Bool) (h0 : 0 ∉ L.ptrs)
    (hfree : ∀ ptr, call = .free ptr → q = 0) (hok : ¬ call.Failed q) :
    call.after kept q L = (L.drop call.argument).receive q call.requested := by
  cases call with
  | malloc size => simp [after, argument, requested, drop_of_not_mem h0]
  | free ptr => simp [after, argument, receive, hfree ptr rfl]
  | calloc nmemb size => simp [after, argument, requested, drop_of_not_mem h0]
  | realloc ptr size =>
    simp only [Failed, requested, not_and] at hok
    simp only [after, argument, requested]
    split
    · rename_i hp
      rw [hp, drop_of_not_mem h0]
    · rw [if_neg (fun hq => hok hq.2 hq.1)]

/-- A failed call leaves the program's heap alone. -/
theorem after_failed {call : Call} {q : Nat} {L : ClientHeap} (hf : call.Failed q) :
    call.after true q L = L := by
  obtain ⟨hreq, hq⟩ := hf
  subst hq
  cases call with
  | malloc size => rfl
  | free ptr => exact absurd rfl hreq
  | calloc nmemb size => rfl
  | realloc ptr size =>
    simp only [requested] at hreq
    simp only [after, hreq, receive, ne_eq, not_false_eq_true, and_self, if_true, ite_self]

section Members

variable {L : ClientHeap} {call : Call} {p q n : Nat} {kept : Bool}

/-- A call leaves the blocks that are not its argument with the program. -/
theorem mem_after (hp : (p, n) ∈ L) (hne : p ≠ call.argument) : (p, n) ∈ call.after kept q L := by
  have hreceive : ∀ {q m : Nat} {L : ClientHeap}, (p, n) ∈ L → (p, n) ∈ L.receive q m := by
    intro q m L hp
    unfold ClientHeap.receive
    split
    · exact hp
    · exact List.mem_cons_of_mem _ hp
  have hdrop : (p, n) ∈ L.drop call.argument :=
    (List.mem_eraseP_of_neg (by simpa using hne)).mpr hp
  cases call with
  | malloc size => exact hreceive hp
  | free ptr => exact hdrop
  | calloc nmemb size => exact hreceive hp
  | realloc ptr size =>
    simp only [after]
    split
    · exact hreceive hp
    · split
      · split
        · exact hp
        · exact hdrop
      · exact hreceive hdrop

/-- What the program holds after a call it has from the call, or held before. -/
theorem ptrs_of_after (hp : p ∈ (call.after kept q L).ptrs) (hpq : p ≠ q) : p ∈ L.ptrs := by
  have hreceive : ∀ {m : Nat} {L : ClientHeap}, p ∈ (L.receive q m).ptrs → p ∈ L.ptrs := by
    intro m L hp
    rw [ClientHeap.receive] at hp
    split at hp
    · exact hp
    · exact (List.mem_cons.mp hp).resolve_left hpq
  have hdrop : ∀ {d : Nat}, p ∈ (L.drop d).ptrs → p ∈ L.ptrs :=
    fun {d} hp => ((ClientHeap.drop_sublist d L).map _).subset hp
  cases call with
  | malloc size => exact hreceive hp
  | free ptr => exact hdrop hp
  | calloc nmemb size => exact hreceive hp
  | realloc ptr size =>
    simp only [after] at hp
    split at hp
    · exact hreceive hp
    · split at hp
      · split at hp
        · exact hp
        · exact hdrop hp
      · exact hdrop (hreceive hp)

/-- A call that returned a block has given it to the program. -/
theorem returned_mem_after (hq : q ≠ 0) (hfree : ∀ ptr, call ≠ .free ptr) :
    (q, call.requested) ∈ call.after kept q L := by
  have hreceive : ∀ {m : Nat} {L : ClientHeap}, (q, m) ∈ L.receive q m := by
    intro m L
    rw [ClientHeap.receive, if_neg hq]
    exact List.mem_cons_self
  cases call with
  | malloc size => exact hreceive
  | free ptr => exact absurd rfl (hfree ptr)
  | calloc nmemb size => exact hreceive
  | realloc ptr size =>
    simp only [after]
    split
    · exact hreceive
    · rw [if_neg fun h => hq h.1]
      exact hreceive

end Members

end Call

/-- A program running under the tool: the tool's state and the program's heap. -/
structure Session where
  tool : HuState
  client : ClientHeap

/-- One call of a wrapper by the program, with what the environment supplies. -/
structure Input where
  call : Call
  env : CallEnv

/-- The program after `hu_init`, holding nothing. -/
def Session.init (c : HuConfig) : Session := ⟨huInit c, []⟩

/-- The result of a call made by a thread that is not bypassed and in no
wrapper. -/
def Session.result (c : HuConfig) (s : Session) (i : Input) : HuState × Nat :=
  wrapper c i.env .fresh i.call s.tool

/-- A call under the C rules: a block survives a failed `realloc`. -/
def Session.next (c : HuConfig) (s : Session) (i : Input) : Session :=
  ⟨(s.result c i).1, i.call.after true (s.result c i).2 s.client⟩

end Heapusage
