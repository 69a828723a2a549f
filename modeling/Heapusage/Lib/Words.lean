/-
Heapusage.Lib.Words — unsigned machine arithmetic and rounding.

`add`, `sub` and `mul` are the operations of `w`-bit unsigned words, written
on naturals with the reduction spelled out. Each has one lemma saying when
the reduction does nothing; proofs about sizes and addresses use those and
then work in the naturals.

`ceilTo n m` is exact rounding up to a multiple of `m`, with no word size
anywhere; a zero multiple leaves the number as it is.
-/
import Mathlib.Data.Nat.ModEq

namespace Words

/-- `w`-bit addition. -/
def add (w a b : Nat) : Nat := (a + b) % 2 ^ w

/-- `w`-bit subtraction. -/
def sub (w a b : Nat) : Nat := (a + (2 ^ w - b % 2 ^ w)) % 2 ^ w

/-- `w`-bit multiplication. -/
def mul (w a b : Nat) : Nat := (a * b) % 2 ^ w

theorem add_eq {w a b : Nat} (h : a + b < 2 ^ w) : add w a b = a + b :=
  Nat.mod_eq_of_lt h

theorem mul_eq {w a b : Nat} (h : a * b < 2 ^ w) : mul w a b = a * b :=
  Nat.mod_eq_of_lt h

theorem sub_eq {w a b : Nat} (hb : b ≤ a) (ha : a < 2 ^ w) : sub w a b = a - b := by
  have hb' : b % 2 ^ w = b := Nat.mod_eq_of_lt (by omega)
  have hsum : a + (2 ^ w - b) = (a - b) + 2 ^ w := by omega
  rw [sub, hb', hsum, Nat.add_mod_right, Nat.mod_eq_of_lt (by omega)]

theorem sub_lt (w a b : Nat) : sub w a b < 2 ^ w := Nat.mod_lt _ (Nat.two_pow_pos w)

/-- What was subtracted can be added back, modulo the word size. -/
theorem sub_add_modEq (w a b : Nat) : sub w a b + b ≡ a [MOD 2 ^ w] := by
  have hble : b % 2 ^ w ≤ 2 ^ w := (Nat.mod_lt b (Nat.two_pow_pos w)).le
  have hb : b % 2 ^ w ≡ b [MOD 2 ^ w] := Nat.mod_modEq b (2 ^ w)
  calc sub w a b + b ≡ (a + (2 ^ w - b % 2 ^ w)) + b % 2 ^ w [MOD 2 ^ w] :=
        (Nat.mod_modEq _ _).add hb.symm
    _ = a + 2 ^ w := by omega
    _ ≡ a [MOD 2 ^ w] := by simp [Nat.ModEq]

/-- Adding and then subtracting: only the difference is reduced. -/
theorem sub_add_mod {w a b c : Nat} (hc : c ≤ a + b) :
    sub w (add w a b) c = (a + b - c) % 2 ^ w := by
  have hleft : sub w (add w a b) c + c ≡ a + b [MOD 2 ^ w] :=
    (sub_add_modEq w _ c).trans (Nat.mod_modEq _ _)
  have hright : a + b = (a + b - c) + c := (Nat.sub_add_cancel hc).symm
  rw [hright] at hleft
  have hcancel := Nat.ModEq.add_right_cancel' c hleft
  rw [← Nat.mod_eq_of_lt (sub_lt w (add w a b) c)]
  exact hcancel

/-- The sum may wrap as long as the difference fits. -/
theorem sub_add_eq {w a b c : Nat} (hc : c ≤ a + b) (h : a + b - c < 2 ^ w) :
    sub w (add w a b) c = a + b - c := by
  rw [sub_add_mod hc, Nat.mod_eq_of_lt h]

/-- A difference of words is zero only for equal words. -/
theorem sub_eq_zero {w a b : Nat} (ha : a < 2 ^ w) (hb : b < 2 ^ w) :
    sub w a b = 0 ↔ a = b := by
  have hmod := sub_add_modEq w a b
  constructor
  · intro h
    rw [h, Nat.zero_add] at hmod
    exact (Nat.ModEq.eq_of_lt_of_lt hmod hb ha).symm
  · intro h
    rw [h, sub_eq (Nat.le_refl b) hb, Nat.sub_self]

/-- An address computed from the start of a region is the start plus the offset
computed the same way, when that does not wrap. -/
theorem sub_sub_add {w a b c d : Nat} (h : a + sub w (sub w b c) d < 2 ^ w) :
    sub w (sub w (add w a b) c) d = a + sub w (sub w b c) d := by
  have hleft : sub w (sub w (add w a b) c) d + (d + c) ≡ a + b [MOD 2 ^ w] := by
    rw [← Nat.add_assoc]
    exact (((sub_add_modEq w _ d).add_right c).trans (sub_add_modEq w _ c)).trans
      (Nat.mod_modEq _ _)
  have hright : a + sub w (sub w b c) d + (d + c) ≡ a + b [MOD 2 ^ w] := by
    rw [Nat.add_assoc, ← Nat.add_assoc (sub w (sub w b c) d)]
    exact (((sub_add_modEq w _ d).add_right c).trans (sub_add_modEq w _ c)).add_left a
  have hcancel := Nat.ModEq.add_right_cancel' (d + c) (hleft.trans hright.symm)
  exact Nat.ModEq.eq_of_lt_of_lt hcancel (sub_lt w _ d) h

/-- Exact rounding up to a multiple of `m`. -/
def ceilTo (n m : Nat) : Nat :=
  if m = 0 then n
  else if n % m = 0 then n
  else n + m - n % m

theorem le_ceilTo (n m : Nat) : n ≤ ceilTo n m := by
  unfold ceilTo
  split
  · exact Nat.le_refl n
  · split
    · exact Nat.le_refl n
    · have := Nat.mod_lt n (Nat.pos_of_ne_zero ‹¬ m = 0›)
      omega

theorem ceilTo_lt {m : Nat} (n : Nat) (hm : 0 < m) : ceilTo n m < n + m := by
  unfold ceilTo
  split
  · omega
  · split
    · omega
    · rename_i hne
      exact Nat.sub_lt (by omega) (Nat.pos_of_ne_zero hne)

theorem dvd_ceilTo (n m : Nat) (hm : 0 < m) : m ∣ ceilTo n m := by
  unfold ceilTo
  rw [if_neg (by omega)]
  split
  · exact Nat.dvd_of_mod_eq_zero ‹_›
  · have hlt := Nat.mod_lt n hm
    have hdiv : n = m * (n / m) + n % m := (Nat.div_add_mod n m).symm
    refine ⟨n / m + 1, ?_⟩
    rw [Nat.mul_add, Nat.mul_one]
    omega

/-- The rounded number is the least multiple. -/
theorem ceilTo_le {n m q : Nat} (hm : 0 < m) (hq : m ∣ q) (hn : n ≤ q) : ceilTo n m ≤ q := by
  have hlt : ceilTo n m < q + m := (ceilTo_lt n hm).trans_le (Nat.add_le_add_right hn m)
  exact Nat.le_of_lt_add_of_dvd hlt (dvd_ceilTo n m hm) hq

/-- Multiples of `m` are at least `m` apart. -/
theorem add_le_of_dvd {m p q : Nat} (hp : m ∣ p) (hq : m ∣ q) (hlt : p < q) : p + m ≤ q :=
  Nat.le_of_lt_add_of_dvd (Nat.add_lt_add_right hlt m) (Nat.dvd_add hp (Nat.dvd_refl m)) hq

/-- Words in different frames of `m` differ, also when they have wrapped. -/
theorem frame_ne {w m a b d e : Nat} (ha : m ∣ a) (hb : m ∣ b) (hapos : 0 < a) (hbpos : 0 < b)
    (haw : a < 2 ^ w) (hbw : b < 2 ^ w) (hd : d < m) (he : e < m) (hne : a ≠ b) :
    (a + d) % 2 ^ w ≠ (b + e) % 2 ^ w := by
  have ham : m ≤ a := Nat.le_of_dvd hapos ha
  have hbm : m ≤ b := Nat.le_of_dvd hbpos hb
  have hapart : a + d ≠ b + e := by
    obtain ⟨x, rfl⟩ := ha
    obtain ⟨y, rfl⟩ := hb
    have hm : 0 < m := by omega
    intro heq
    have hx : (m * x + d) / m = x := by
      rw [Nat.mul_add_div hm, Nat.div_eq_of_lt hd, Nat.add_zero]
    have hy : (m * y + e) / m = y := by
      rw [Nat.mul_add_div hm, Nat.div_eq_of_lt he, Nat.add_zero]
    rw [heq, hy] at hx
    exact hne (by rw [hx])
  -- a word that has wrapped is below the first frame
  have hwrap : ∀ {s t : Nat}, s < 2 ^ w → t < m → m ≤ 2 ^ w →
      (s + t) % 2 ^ w = if s + t < 2 ^ w then s + t else s + t - 2 ^ w := by
    intro s t hs ht hmw
    split
    · rename_i hlt
      exact Nat.mod_eq_of_lt hlt
    · rename_i hge
      rw [Nat.mod_eq_sub_mod (by omega), Nat.mod_eq_of_lt (by omega)]
  rw [hwrap haw hd (by omega), hwrap hbw he (by omega)]
  split <;> split <;> omega

/-- A product that overflows is caught by dividing the reduced product. -/
theorem mul_div_ne {w a b : Nat} (h : 2 ^ w ≤ a * b) : mul w a b / a ≠ b := by
  intro hdiv
  have hlt : mul w a b < 2 ^ w := Nat.mod_lt _ (Nat.two_pow_pos w)
  have hle : a * (mul w a b / a) ≤ mul w a b := Nat.mul_div_le _ _
  rw [hdiv] at hle
  omega

/-- A reduced product has the quotient of the product only if nothing was reduced. -/
theorem mul_quotient_iff {w a b d : Nat} (hd : 0 < d) (hw : d ≤ 2 ^ w) :
    mul w a b / d = a * b / d ↔ a * b < 2 ^ w := by
  constructor
  · intro hquot
    by_contra hle
    have hlow : mul w a b / d * d ≤ mul w a b := Nat.div_mul_le_self _ _
    have hhigh : a * b < a * b / d * d + d := Nat.lt_div_mul_add hd
    have hwrap : mul w a b + 2 ^ w ≤ a * b := by
      have hsplit := Nat.mod_add_div (a * b) (2 ^ w)
      have hone : 2 ^ w * 1 ≤ 2 ^ w * (a * b / 2 ^ w) :=
        Nat.mul_le_mul_left _ (Nat.div_pos (Nat.not_lt.mp hle) (Nat.two_pow_pos w))
      unfold mul
      omega
    rw [hquot] at hlow
    omega
  · intro h
    rw [mul_eq h]

theorem mul_div_eq {w a b : Nat} (ha : 0 < a) (h : a * b < 2 ^ w) : mul w a b / a = b := by
  rw [mul_eq h, Nat.mul_div_cancel_left b ha]

end Words
