/-
Heapusage.Lib.Arena — a family of separate blocks in a bounded address space.

An allocator's contract is about the blocks it has handed out and not taken
back: they lie inside the address space, none starts at address zero, and no
two overlap. `Arena` is that family with the contract as its proof fields, so
every operation that builds an arena keeps it. A block of size zero still
occupies one address (`Block.extent`), which is what "a unique pointer" for a
zero-size request means.

Because they do not overlap, distinct blocks add up to less than the address
space (`Arena.sum_size_le`).

Blocks carry a tag of any type; the arena does not look at it. `Covers` is for
clients that hold several claims at once: a list of bases, each the base of a
block and none listed twice.
-/
import Mathlib.Data.List.Pairwise
import Mathlib.Data.List.Nodup
import Mathlib.Data.List.Perm.Subperm
import Mathlib.Order.Interval.Finset.Nat
import Mathlib.Algebra.Order.BigOperators.Group.List
import Mathlib.Algebra.Order.Group.Nat
import Mathlib.Algebra.GroupWithZero.Nat

namespace Arenas

universe u

/-- A block of `size` bytes at `base`. -/
structure Block (κ : Type u) where
  base : Nat
  size : Nat
  tag : κ
  deriving DecidableEq, Repr

variable {κ : Type u}

/-- The addresses a block takes up: at least one. -/
def Block.extent (b : Block κ) : Nat := max b.size 1

/-- The first address after the block. -/
def Block.stop (b : Block κ) : Nat := b.base + b.extent

/-- The block takes up address `a`. -/
def Block.Holds (b : Block κ) (a : Nat) : Prop := b.base ≤ a ∧ a < b.stop

/-- Two blocks share no address. -/
def Block.Apart (b d : Block κ) : Prop := b.stop ≤ d.base ∨ d.stop ≤ b.base

instance (b d : Block κ) : Decidable (b.Apart d) :=
  inferInstanceAs (Decidable (_ ∨ _))

theorem Block.base_lt_stop (b : Block κ) : b.base < b.stop := by
  unfold Block.stop Block.extent
  omega

theorem Block.base_add_size_le (b : Block κ) : b.base + b.size ≤ b.stop := by
  unfold Block.stop Block.extent
  omega

theorem Block.holds_base (b : Block κ) : b.Holds b.base :=
  ⟨Nat.le_refl _, b.base_lt_stop⟩

theorem Block.holds_of_lt_size (b : Block κ) {i : Nat} (hi : i < b.size) :
    b.Holds (b.base + i) := by
  have := b.base_add_size_le
  exact ⟨by omega, by omega⟩

theorem Block.Apart.symm {b d : Block κ} (h : b.Apart d) : d.Apart b := Or.symm h

instance : Std.Symm (@Block.Apart κ) := ⟨fun _ _ h => h.symm⟩

/-- No address is in two blocks that are apart. -/
theorem Block.Apart.not_holds {b d : Block κ} (h : b.Apart d) {a : Nat}
    (hb : b.Holds a) : ¬ d.Holds a := by
  intro hd
  obtain ⟨hb1, hb2⟩ := hb
  obtain ⟨hd1, hd2⟩ := hd
  rcases h with h | h <;> omega

theorem Block.Apart.base_ne {b d : Block κ} (h : b.Apart d) : b.base ≠ d.base := by
  intro heq
  exact h.not_holds b.holds_base (heq ▸ d.holds_base)

/-- A family of blocks below `limit`, pairwise apart, none at address zero. -/
structure Arena (κ : Type u) (limit : Nat) where
  blocks : List (Block κ)
  apart : blocks.Pairwise Block.Apart
  inside : ∀ b ∈ blocks, 0 < b.base ∧ b.stop ≤ limit

variable {limit : Nat}

namespace Arena

/-- The arena with no blocks. -/
def empty : Arena κ limit := ⟨[], List.Pairwise.nil, by simp⟩

/-- The block may be handed out now. -/
def Admits (A : Arena κ limit) (b : Block κ) : Prop :=
  0 < b.base ∧ b.stop ≤ limit ∧ ∀ d ∈ A.blocks, b.Apart d

instance (A : Arena κ limit) (b : Block κ) : Decidable (A.Admits b) :=
  inferInstanceAs (Decidable (_ ∧ _ ∧ _))

/-- Hand out a block. -/
def add (A : Arena κ limit) (b : Block κ) (h : A.Admits b) : Arena κ limit where
  blocks := b :: A.blocks
  apart := List.pairwise_cons.mpr ⟨h.2.2, A.apart⟩
  inside := by
    intro d hd
    rcases List.mem_cons.mp hd with rfl | hd
    · exact ⟨h.1, h.2.1⟩
    · exact A.inside d hd

/-- Take back the block at `p`. -/
def release (A : Arena κ limit) (p : Nat) : Arena κ limit where
  blocks := A.blocks.filter (fun b => b.base ≠ p)
  apart := A.apart.filter _
  inside := fun b hb => A.inside b (List.mem_of_mem_filter hb)

/-- The block that starts at `p`. -/
def find (A : Arena κ limit) (p : Nat) : Option (Block κ) :=
  A.blocks.find? (fun b => b.base = p)

@[simp] theorem mem_add (A : Arena κ limit) (b d : Block κ) (h : A.Admits b) :
    d ∈ (A.add b h).blocks ↔ d = b ∨ d ∈ A.blocks := List.mem_cons

@[simp] theorem mem_release (A : Arena κ limit) (p : Nat) (d : Block κ) :
    d ∈ (A.release p).blocks ↔ d ∈ A.blocks ∧ d.base ≠ p := by
  simp [release]

/-- To take back what was not handed out changes nothing. -/
theorem release_of_forall_ne (A : Arena κ limit) {p : Nat} (h : ∀ d ∈ A.blocks, d.base ≠ p) :
    A.release p = A := by
  have hblocks : (A.release p).blocks = A.blocks :=
    List.filter_eq_self.mpr fun d hd => decide_eq_true (h d hd)
  cases A
  simp only [release, mk.injEq] at hblocks ⊢
  exact hblocks

/-- No block of the arena takes up address zero. -/
theorem ne_zero_of_holds (A : Arena κ limit) {b : Block κ} (hb : b ∈ A.blocks) {a : Nat}
    (ha : b.Holds a) : a ≠ 0 := by
  have hpos := (A.inside b hb).1
  have hle := ha.1
  omega

theorem base_ne_zero (A : Arena κ limit) {b : Block κ} (hb : b ∈ A.blocks) : b.base ≠ 0 :=
  A.ne_zero_of_holds hb b.holds_base

/-- Two blocks of the arena that share an address are the same block. -/
theorem eq_of_holds (A : Arena κ limit) {b d : Block κ} {a : Nat}
    (hb : b ∈ A.blocks) (hd : d ∈ A.blocks) (hba : b.Holds a) (hda : d.Holds a) : b = d := by
  by_contra hne
  have hapart : b.Apart d := A.apart.forall hb hd hne
  exact hapart.not_holds hba hda

/-- Blocks of the arena are told apart by their base. -/
theorem eq_of_base_eq (A : Arena κ limit) {b d : Block κ}
    (hb : b ∈ A.blocks) (hd : d ∈ A.blocks) (h : b.base = d.base) : b = d :=
  A.eq_of_holds hb hd b.holds_base (h ▸ d.holds_base)

/-- Blocks of the arena with different tags share no address. -/
theorem not_holds_of_tag_ne (A : Arena κ limit) {b d : Block κ} (hb : b ∈ A.blocks)
    (hd : d ∈ A.blocks) (htag : b.tag ≠ d.tag) {a : Nat} (hba : b.Holds a) : ¬ d.Holds a :=
  fun hda => htag (congrArg Block.tag (A.eq_of_holds hb hd hba hda))

theorem base_ne_of_tag_ne (A : Arena κ limit) {b d : Block κ} (hb : b ∈ A.blocks)
    (hd : d ∈ A.blocks) (htag : b.tag ≠ d.tag) : b.base ≠ d.base :=
  fun h => htag (congrArg Block.tag (A.eq_of_base_eq hb hd h))

theorem find_eq_some (A : Arena κ limit) {b : Block κ} (hb : b ∈ A.blocks) :
    A.find b.base = some b := by
  cases h : A.find b.base with
  | none =>
    have := List.find?_eq_none.mp h b hb
    simp at this
  | some d =>
    have hmem : d ∈ A.blocks := List.mem_of_find?_eq_some h
    have hbase : d.base = b.base := by simpa using List.find?_some h
    rw [A.eq_of_base_eq hmem hb hbase]

theorem mem_of_find {A : Arena κ limit} {p : Nat} {b : Block κ} (h : A.find p = some b) :
    b ∈ A.blocks ∧ b.base = p :=
  ⟨List.mem_of_find?_eq_some h, by simpa using List.find?_some h⟩

/-- No block is listed twice. -/
theorem blocks_nodup (A : Arena κ limit) : A.blocks.Nodup := by
  refine List.Pairwise.imp ?_ A.apart
  intro b d h heq
  exact h.base_ne (congrArg Block.base heq)

/-- Taking a block back leaves the others. -/
theorem release_perm {A : Arena κ limit} {p : Nat} {b : Block κ} (h : A.find p = some b) :
    A.blocks.Perm (b :: (A.release p).blocks) := by
  obtain ⟨hb, hbase⟩ := mem_of_find h
  have hnew : b ∉ (A.release p).blocks := fun hmem => ((mem_release A p b).mp hmem).2 hbase
  have hnd : (b :: (A.release p).blocks).Nodup :=
    List.nodup_cons.mpr ⟨hnew, (A.release p).blocks_nodup⟩
  refine (List.perm_ext_iff_of_nodup A.blocks_nodup hnd).mpr fun d => ?_
  rw [List.mem_cons, mem_release]
  constructor
  · intro hd
    by_cases hdb : d = b
    · exact .inl hdb
    · exact .inr ⟨hd, fun hdp => hdb (A.eq_of_base_eq hd hb (hdp.trans hbase.symm))⟩
  · rintro (rfl | ⟨hd, -⟩)
    · exact hb
    · exact hd

theorem Admits.ne_zero_of_holds {A : Arena κ limit} {b : Block κ} (h : A.Admits b) {a : Nat}
    (ha : b.Holds a) : a ≠ 0 := by
  have hpos := h.1
  have hle := ha.1
  omega

theorem Admits.base_ne_zero {A : Arena κ limit} {b : Block κ} (h : A.Admits b) : b.base ≠ 0 :=
  h.ne_zero_of_holds b.holds_base

/-- A block handed out now shares no address with a block handed out before. -/
theorem Admits.not_holds {A : Arena κ limit} {b d : Block κ} (h : A.Admits b)
    (hd : d ∈ A.blocks) {a : Nat} (ha : d.Holds a) : ¬ b.Holds a :=
  (h.2.2 d hd).symm.not_holds ha

theorem Admits.not_mem {A : Arena κ limit} {b : Block κ} (h : A.Admits b) : b ∉ A.blocks :=
  fun hb => h.not_holds hb b.holds_base b.holds_base

/-- Every address of the list is the base of a block, none listed twice: each
entry is a claim on a block of its own. -/
structure Covers (A : Arena κ limit) (claims : List Nat) : Prop where
  nodup : claims.Nodup
  live : ∀ a ∈ claims, ∃ b ∈ A.blocks, b.base = a

namespace Covers

variable {A : Arena κ limit} {claims claims' : List Nat}

theorem nil (A : Arena κ limit) : A.Covers [] := ⟨List.nodup_nil, by simp⟩

/-- Claims may be dropped and put in another order. -/
theorem subperm (h : A.Covers claims) (hsub : claims'.Subperm claims) : A.Covers claims' := by
  obtain ⟨mid, hperm, hmid⟩ := hsub
  refine ⟨hperm.nodup (h.nodup.sublist hmid), fun a ha => ?_⟩
  exact h.live a (hmid.subset (hperm.mem_iff.mpr ha))

/-- A new block brings a new claim. -/
theorem add (h : A.Covers claims) {b : Block κ} (hb : A.Admits b) :
    (A.add b hb).Covers (b.base :: claims) := by
  refine ⟨List.nodup_cons.mpr ⟨?_, h.nodup⟩, ?_⟩
  · intro hmem
    obtain ⟨d, hd, hbase⟩ := h.live b.base hmem
    exact (hb.2.2 d hd).base_ne hbase.symm
  · intro a ha
    rcases List.mem_cons.mp ha with rfl | ha
    · exact ⟨b, (mem_add A b b hb).mpr (.inl rfl), rfl⟩
    · obtain ⟨d, hd, hbase⟩ := h.live a ha
      exact ⟨d, (mem_add A b d hb).mpr (.inr hd), hbase⟩

/-- A claim is given up together with its block. -/
theorem release {a : Nat} (h : A.Covers (a :: claims)) : (A.release a).Covers claims := by
  obtain ⟨hne, hnd⟩ := List.nodup_cons.mp h.nodup
  refine ⟨hnd, fun x hx => ?_⟩
  obtain ⟨b, hb, hbase⟩ := h.live x (List.mem_cons_of_mem a hx)
  refine ⟨b, (mem_release A a b).mpr ⟨hb, fun hba => hne ?_⟩, hbase⟩
  rwa [← hba, hbase]

/-- What is claimed can be taken back. -/
theorem find {a : Nat} (h : A.Covers claims) (ha : a ∈ claims) : ∃ b, A.find a = some b := by
  obtain ⟨b, hb, rfl⟩ := h.live a ha
  exact ⟨b, A.find_eq_some hb⟩

end Covers

/-! ### Room -/

/-- Distinct blocks take up as many addresses as they are long. -/
theorem taken (A : Arena κ limit) {bs : List (Block κ)} (hnd : bs.Nodup)
    (hlive : ∀ b ∈ bs, b ∈ A.blocks) :
    ∃ T : Finset Nat, T ⊆ Finset.Ico 1 limit ∧ T.card = (bs.map Block.extent).sum ∧
      ∀ a ∈ T, ∃ b ∈ bs, b.Holds a := by
  induction bs with
  | nil => exact ⟨∅, Finset.empty_subset _, rfl, by simp⟩
  | cons b bs ih =>
    obtain ⟨hb, hnd⟩ := List.nodup_cons.mp hnd
    obtain ⟨T, hsub, hcard, hheld⟩ := ih hnd fun d hd => hlive d (List.mem_cons_of_mem b hd)
    have hlb := hlive b (List.mem_cons_self ..)
    have hdisj : Disjoint (Finset.Ico b.base b.stop) T := by
      rw [Finset.disjoint_left]
      intro a ha haT
      obtain ⟨d, hd, hda⟩ := hheld a haT
      have heq := A.eq_of_holds hlb (hlive d (List.mem_cons_of_mem b hd))
        (Finset.mem_Ico.mp ha) hda
      exact hb (heq ▸ hd)
    refine ⟨Finset.Ico b.base b.stop ∪ T, ?_, ?_, ?_⟩
    · refine Finset.union_subset ?_ hsub
      obtain ⟨hpos, hstop⟩ := A.inside b hlb
      exact Finset.Ico_subset_Ico hpos hstop
    · rw [Finset.card_union_of_disjoint hdisj, hcard, Nat.card_Ico, List.map_cons, List.sum_cons,
        Block.stop, Nat.add_sub_cancel_left]
    · intro a ha
      rcases Finset.mem_union.mp ha with ha | ha
      · exact ⟨b, List.mem_cons_self .., Finset.mem_Ico.mp ha⟩
      · obtain ⟨d, hd, hda⟩ := hheld a ha
        exact ⟨d, List.mem_cons_of_mem b hd, hda⟩

/-- **Distinct blocks fit into the address space**: their sizes do not add up to
more than it has addresses. -/
theorem sum_size_le (A : Arena κ limit) {bs : List (Block κ)} (hnd : bs.Nodup)
    (hlive : ∀ b ∈ bs, b ∈ A.blocks) : (bs.map Block.size).sum ≤ limit - 1 := by
  obtain ⟨T, hsub, hcard, -⟩ := A.taken hnd hlive
  calc (bs.map Block.size).sum
      ≤ (bs.map Block.extent).sum :=
        List.sum_le_sum fun b _ => (Nat.le_max_left b.size 1)
    _ = T.card := hcard.symm
    _ ≤ (Finset.Ico 1 limit).card := Finset.card_le_card hsub
    _ = limit - 1 := Nat.card_Ico 1 limit

end Arena

end Arenas
