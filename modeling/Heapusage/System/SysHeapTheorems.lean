/-
Heapusage.System.SysHeapTheorems — what one call of the C library can do.

One inversion lemma per function. A function that hands out memory either
fails and changes nothing the program can see, or hands out a region the
arena admitted; `realloc` has the two further outcomes of a pointer that is
not the base of a live region and of size zero. Later proofs split on these
and never unfold the functions.
-/
import Heapusage.System.SysHeap

namespace Heapusage

open Arenas

namespace SysHeap

variable (ans : SysAns) (h : SysHeap)

/-! ## Granting -/

@[simp] theorem granted_prot (r : Region) (fill : Nat → UInt8) (hr : h.arena.Admits r) :
    (h.granted r fill hr).prot = h.prot := rfl

@[simp] theorem granted_calls (r : Region) (fill : Nat → UInt8) (hr : h.arena.Admits r) :
    (h.granted r fill hr).calls = h.calls := rfl

@[simp] theorem mem_granted (r : Region) (fill : Nat → UInt8) (hr : h.arena.Admits r)
    (d : Region) : d ∈ (h.granted r fill hr).arena.blocks ↔ d = r ∨ d ∈ h.arena.blocks :=
  Arena.mem_add _ _ _ hr

/-- Memory outside the new region is untouched. -/
theorem granted_mem_of_held {r : Region} {fill : Nat → UInt8} (hr : h.arena.Admits r)
    {d : Region} (hd : d ∈ h.arena.blocks) {a : Nat} (ha : d.Holds a) :
    (h.granted r fill hr).mem a = h.mem a := by
  have hout := hr.not_holds hd ha
  have hsize := r.base_add_size_le
  simp only [granted]
  rw [if_neg]
  intro hboth
  obtain ⟨h1, h2⟩ := hboth
  exact hout ⟨h1, by omega⟩

/-- The new region holds what was written to it. -/
theorem granted_mem_of_lt {r : Region} {fill : Nat → UInt8} (hr : h.arena.Admits r)
    {i : Nat} (hi : i < r.size) :
    (h.granted r fill hr).mem (r.base + i) = fill (r.base + i) := by
  simp only [granted]
  rw [if_pos]
  omega

theorem grant_cases (r : Region) (fill : Nat → UInt8) :
    h.grant r fill = none ∨ ∃ hr, h.grant r fill = some (h.granted r fill hr) := by
  unfold grant
  split
  · rename_i hr
    exact .inr ⟨hr, rfl⟩
  · exact .inl rfl

/-! ## The functions -/

theorem libcMalloc_cases (size : Nat) :
    h.libcMalloc ans size = (h, 0) ∨
    ∃ hr : h.arena.Admits ⟨ans.ptr, size, .malloc⟩,
      h.libcMalloc ans size = (h.granted _ ans.fill hr, ans.ptr) := by
  unfold libcMalloc
  rcases grant_cases h ⟨ans.ptr, size, .malloc⟩ ans.fill with hg | ⟨hr, hg⟩
  · exact .inl (by rw [hg])
  · exact .inr ⟨hr, by rw [hg]⟩

theorem libcCalloc_cases (nmemb size : Nat) :
    h.libcCalloc ans nmemb size = (h, 0) ∨
    nmemb * size < 2 ^ 64 ∧
      ∃ hr : h.arena.Admits ⟨ans.ptr, nmemb * size, .malloc⟩,
        h.libcCalloc ans nmemb size = (h.granted _ (fun _ => 0) hr, ans.ptr) := by
  unfold libcCalloc
  split
  · rename_i hfit
    rcases grant_cases h ⟨ans.ptr, nmemb * size, .malloc⟩ (fun _ => 0) with hg | ⟨hr, hg⟩
    · exact .inl (by rw [hg])
    · exact .inr ⟨hfit, hr, by rw [hg]⟩
  · exact .inl rfl

theorem posixMemalign_cases (align size : Nat) :
    h.posixMemalign ans align size = (h, 0) ∨
    ans.ptr % align = 0 ∧
      ∃ hr : h.arena.Admits ⟨ans.ptr, size, .memalign⟩,
        h.posixMemalign ans align size =
          ({ h.granted _ ans.fill hr with
              calls := .memalign ⟨ans.ptr, size, .memalign⟩ :: h.calls }, ans.ptr) := by
  unfold posixMemalign
  split
  · rename_i halign
    rcases grant_cases h ⟨ans.ptr, size, .memalign⟩ ans.fill with hg | ⟨hr, hg⟩
    · exact .inl (by rw [hg])
    · exact .inr ⟨halign, hr, by rw [hg]; rfl⟩
  · exact .inl rfl

/-- Freeing null does nothing. -/
@[simp] theorem libcFree_null : h.libcFree 0 = h := rfl

theorem libcFree_of_ne {p : Nat} (hp : p ≠ 0) :
    h.libcFree p = { h with
      arena := h.arena.release p
      calls := .free p (h.arena.find p) h.prot :: h.calls } := if_neg hp

@[simp] theorem libcFree_prot (p : Nat) : (h.libcFree p).prot = h.prot := by
  unfold libcFree
  split <;> rfl

@[simp] theorem libcFree_mem (p : Nat) : (h.libcFree p).mem = h.mem := by
  unfold libcFree
  split <;> rfl

/-- `realloc` of a pointer that is the base of a live region. -/
theorem libcRealloc_cases {p : Nat} (hp : p ≠ 0) {r : Region} (hr : h.arena.find p = some r)
    (size : Nat) :
    (size = 0 ∧ h.libcRealloc ans p size = (h.vacated p size, 0)) ∨
    (size ≠ 0 ∧ h.libcRealloc ans p size = (h.recorded p size, 0)) ∨
    (size ≠ 0 ∧ ∃ hn : (h.vacated p size).arena.Admits ⟨ans.ptr, size, .malloc⟩,
      h.libcRealloc ans p size =
        ((h.vacated p size).granted _ (h.reallocFill ans p r.size) hn, ans.ptr)) := by
  by_cases hz : size = 0
  · refine .inl ⟨hz, ?_⟩
    simp only [libcRealloc, if_neg hp, hr, if_pos hz]
  · refine .inr ?_
    rcases grant_cases (h.vacated p size) ⟨ans.ptr, size, .malloc⟩
        (h.reallocFill ans p r.size) with hg | ⟨hn, hg⟩
    · refine .inl ⟨hz, ?_⟩
      simp only [libcRealloc, if_neg hp, hr, if_neg hz, hg]
    · refine .inr ⟨hz, hn, ?_⟩
      simp only [libcRealloc, if_neg hp, hr, if_neg hz, hg]

/-- `realloc` of any other pointer hands out nothing and changes no block. -/
theorem libcRealloc_undefined {p : Nat} (hp : p ≠ 0) (hr : h.arena.find p = none) (size : Nat) :
    h.libcRealloc ans p size = (h.recorded p size, 0) := by
  simp only [libcRealloc, if_neg hp, hr]

/-! ## Results -/

theorem libcMalloc_result (size : Nat) :
    (h.libcMalloc ans size).2 =
      if h.arena.Admits ⟨ans.ptr, size, .malloc⟩ then ans.ptr else 0 := by
  unfold libcMalloc grant
  by_cases hr : h.arena.Admits ⟨ans.ptr, size, .malloc⟩
  · simp only [hr, dif_pos, if_true]
  · simp only [hr, not_false_eq_true, dif_neg, if_false]

theorem libcCalloc_result (nmemb size : Nat) :
    (h.libcCalloc ans nmemb size).2 =
      if nmemb * size < 2 ^ 64 ∧ h.arena.Admits ⟨ans.ptr, nmemb * size, .malloc⟩ then ans.ptr
      else 0 := by
  unfold libcCalloc grant
  by_cases hfit : nmemb * size < 2 ^ 64
  · by_cases hr : h.arena.Admits ⟨ans.ptr, nmemb * size, .malloc⟩
    · simp only [hfit, hr, dif_pos, if_true, and_self]
    · simp only [hfit, hr, not_false_eq_true, dif_neg, if_true, if_false, and_false]
  · simp only [hfit, if_false, false_and]

theorem posixMemalign_result (align size : Nat) :
    (h.posixMemalign ans align size).2 =
      if ans.ptr % align = 0 ∧ h.arena.Admits ⟨ans.ptr, size, .memalign⟩ then ans.ptr else 0 := by
  unfold posixMemalign grant
  by_cases halign : ans.ptr % align = 0
  · by_cases hr : h.arena.Admits ⟨ans.ptr, size, .memalign⟩
    · simp only [halign, hr, dif_pos, if_true, and_self]
    · simp only [halign, hr, not_false_eq_true, dif_neg, if_true, if_false, and_false]
  · simp only [halign, if_false, false_and]

theorem libcRealloc_result {p : Nat} (hp : p ≠ 0) {r : Region} (hr : h.arena.find p = some r)
    {size : Nat} (hz : size ≠ 0) :
    (h.libcRealloc ans p size).2 =
      if (h.arena.release p).Admits ⟨ans.ptr, size, .malloc⟩ then ans.ptr else 0 := by
  unfold libcRealloc grant
  have harena : (h.vacated p size).arena = h.arena.release p := rfl
  by_cases hn : (h.arena.release p).Admits ⟨ans.ptr, size, .malloc⟩
  · simp only [hp, hr, hz, harena, hn, if_false, dif_pos, if_true]
  · simp only [hp, hr, hz, harena, hn, if_false, not_false_eq_true, dif_neg]

/-! ## Memory -/

/-- `realloc` returns null or the address the system offers. -/
theorem libcRealloc_answer {p : Nat} (hp : p ≠ 0) (size : Nat) :
    (h.libcRealloc ans p size).2 = 0 ∨ (h.libcRealloc ans p size).2 = ans.ptr := by
  cases hr : h.arena.find p with
  | none => exact .inl (by rw [libcRealloc_undefined ans h hp hr])
  | some r =>
    rcases libcRealloc_cases ans h hp hr size with ⟨-, heq⟩ | ⟨-, heq⟩ | ⟨-, _, heq⟩
    · exact .inl (by rw [heq])
    · exact .inl (by rw [heq])
    · exact .inr (by rw [heq])

/-- A `realloc` leaves the bytes of every other live region alone. -/
theorem libcRealloc_mem_of_held {p : Nat} (hp : p ≠ 0) {r : Region}
    (hr : h.arena.find p = some r) (size : Nat) {d : Region} (hd : d ∈ h.arena.blocks)
    (hne : d.base ≠ p) {a : Nat} (ha : d.Holds a) :
    (h.libcRealloc ans p size).1.mem a = h.mem a := by
  rcases libcRealloc_cases ans h hp hr size with ⟨-, heq⟩ | ⟨-, heq⟩ | ⟨-, hn, heq⟩
  · rw [heq]
    rfl
  · rw [heq]
    rfl
  · rw [heq]
    exact granted_mem_of_held (h.vacated p size) hn
      ((Arena.mem_release _ _ _).mpr ⟨hd, hne⟩) ha

/-- A block that `realloc` returned holds the bytes of the old one, as far as
both sizes reach. -/
theorem libcRealloc_mem_prefix {p : Nat} (hp : p ≠ 0) {r : Region}
    (hr : h.arena.find p = some r) {size : Nat} (hq : (h.libcRealloc ans p size).2 ≠ 0)
    {i : Nat} (hold : i < r.size) (hnew : i < size) :
    (h.libcRealloc ans p size).1.mem ((h.libcRealloc ans p size).2 + i) = h.mem (p + i) := by
  rcases libcRealloc_cases ans h hp hr size with ⟨-, heq⟩ | ⟨-, heq⟩ | ⟨-, hn, heq⟩
  · rw [heq] at hq
    exact absurd rfl hq
  · rw [heq] at hq
    exact absurd rfl hq
  · rw [heq]
    have hlt : ((h.vacated p size).granted _ (h.reallocFill ans p r.size) hn).mem (ans.ptr + i) =
        h.reallocFill ans p r.size (ans.ptr + i) := granted_mem_of_lt _ hn hnew
    rw [hlt]
    simp [reallocFill, hold]

/-- `calloc` hands out zero bytes. -/
theorem libcCalloc_mem_zero {nmemb size : Nat} (hq : (h.libcCalloc ans nmemb size).2 ≠ 0)
    {i : Nat} (hi : i < nmemb * size) :
    (h.libcCalloc ans nmemb size).1.mem ((h.libcCalloc ans nmemb size).2 + i) = 0 := by
  rcases libcCalloc_cases ans h nmemb size with heq | ⟨-, hn, heq⟩
  · rw [heq] at hq
    exact absurd rfl hq
  · rw [heq]
    exact granted_mem_of_lt h hn hi

theorem memset_mem_of_lt {p n : Nat} {v : UInt8} {i : Nat} (hi : i < n) :
    (h.memset p v n).mem (p + i) = v := if_pos ⟨by omega, by omega⟩

theorem memset_mem_of_out {p n : Nat} {v : UInt8} {a : Nat} (ha : ∀ i < n, a ≠ p + i) :
    (h.memset p v n).mem a = h.mem a :=
  if_neg fun hc => ha (a - p) (by omega) (by omega)

theorem memcpy_mem_of_lt {dst src n : Nat} {i : Nat} (hi : i < n) :
    (h.memcpy dst src n).mem (dst + i) = h.mem (src + i) := by
  have hin : dst ≤ dst + i ∧ dst + i < dst + n := ⟨by omega, by omega⟩
  simp only [memcpy, if_pos hin, Nat.add_sub_cancel_left]

theorem memcpy_mem_of_out {dst src n : Nat} {a : Nat} (ha : ∀ i < n, a ≠ dst + i) :
    (h.memcpy dst src n).mem a = h.mem a :=
  if_neg fun hc => ha (a - dst) (by omega) (by omega)

/-! ## `mprotect` -/

@[simp] theorem mprotect_arena (addr len : Nat) (prot : Prot) :
    (h.mprotect ans addr len prot).1.arena = h.arena := by
  unfold mprotect
  split <;> rfl

@[simp] theorem mprotect_mem (addr len : Nat) (prot : Prot) :
    (h.mprotect ans addr len prot).1.mem = h.mem := by
  unfold mprotect
  split <;> rfl

@[simp] theorem mprotect_calls (addr len : Nat) (prot : Prot) :
    (h.mprotect ans addr len prot).1.calls = h.calls := by
  unfold mprotect
  split <;> rfl

/-- A successful `mprotect` sets exactly the bytes named. -/
theorem mprotect_prot {addr len : Nat} {prot : Prot} (hok : ans.mprotectOk addr len prot = true)
    (a : Nat) :
    (h.mprotect ans addr len prot).1.prot a =
      if addr ≤ a ∧ a < addr + len then prot else h.prot a := by
  simp [mprotect, hok]

/-- A failed one sets nothing. -/
theorem mprotect_prot_failed {addr len : Nat} {prot : Prot}
    (hfailed : ans.mprotectOk addr len prot = false) :
    (h.mprotect ans addr len prot).1.prot = h.prot := by
  simp [mprotect, hfailed]

end SysHeap

end Heapusage
