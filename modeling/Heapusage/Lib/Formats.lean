/-
Heapusage.Lib.Formats — `printf` formats, and which values their output shows.

A format is a list of pieces: characters as they are, and conversions that
print the next argument. The conversions are the ones of a decimal number of
either sign, a pointer, a hexadecimal number of a least width, and a string.

What was printed can be read back when two checks on the formats pass, both of
which are computed: in each format a conversion is followed by a character it
never prints (`readable`), and two formats that are told apart by the text
differ in a character before they differ in anything else (`apart`). Strings
have to avoid the one character that ends them.

§1 Numerals. §2 Conversions. §3 Formats. §4 Lines from a table of formats.
-/
import Heapusage.Lib.Writers
import Mathlib.Data.Nat.Basic
import Mathlib.Data.List.Basic

namespace Formats

open Writers

universe u

/-! ## §1 Numerals -/

/-- A digit of a number written in base sixteen or less. -/
def isDigitChar (c : Char) : Bool := c.isDigit || ('a' ≤ c && c ≤ 'f')

/-- The value of a digit. -/
def digitValue (c : Char) : Nat := if c.isDigit then c.toNat - 48 else c.toNat - 87

/-- The value of a numeral. -/
def numeralValue (base : Nat) (cs : List Char) : Nat :=
  cs.foldl (fun value c => base * value + digitValue c) 0

theorem isDigitChar_digitChar {d : Nat} (h : d < 16) : isDigitChar d.digitChar = true := by
  have hall : ∀ d : Fin 16, isDigitChar d.val.digitChar = true := by decide
  exact hall ⟨d, h⟩

theorem isDigit_digitChar {d : Nat} (h : d < 10) : d.digitChar.isDigit = true := by
  have hall : ∀ d : Fin 10, d.val.digitChar.isDigit = true := by decide
  exact hall ⟨d, h⟩

theorem digitValue_digitChar {d : Nat} (h : d < 16) : digitValue d.digitChar = d := by
  have hall : ∀ d : Fin 16, digitValue d.val.digitChar = d.val := by decide
  exact hall ⟨d, h⟩

/-- What holds of the digits of a base holds of the digits of its numerals. -/
theorem toDigits_forall {base : Nat} (hbase : 1 < base) {p : Char → Prop}
    (hp : ∀ d < base, p d.digitChar) (n : Nat) : ∀ c ∈ Nat.toDigits base n, p c := by
  induction n using Nat.strongRecOn with
  | ind n ih =>
    rw [Nat.toDigits_eq_if hbase]
    split
    · rename_i hn
      simpa using hp n hn
    · rename_i hn
      intro c hc
      rcases List.mem_append.mp hc with hc | hc
      · exact ih (n / base) (Nat.div_lt_self (by omega) hbase) c hc
      · rw [List.mem_singleton.mp hc]
        exact hp _ (Nat.mod_lt n (by omega))

theorem numeralValue_toDigits {base : Nat} (hbase : 1 < base) (hle : base ≤ 16) (n : Nat) :
    numeralValue base (Nat.toDigits base n) = n := by
  induction n using Nat.strongRecOn with
  | ind n ih =>
    rw [Nat.toDigits_eq_if hbase]
    split
    · rename_i hn
      simp [numeralValue, digitValue_digitChar (by omega : n < 16)]
    · rename_i hn
      have hlow : n % base < base := Nat.mod_lt n (by omega)
      have hhigh := ih (n / base) (Nat.div_lt_self (by omega) hbase)
      simp only [numeralValue, List.foldl_append, List.foldl_cons, List.foldl_nil]
      rw [digitValue_digitChar (by omega : n % base < 16)]
      rw [numeralValue] at hhigh
      rw [hhigh, Nat.div_add_mod]

/-- Zeros in front change nothing. -/
theorem numeralValue_zeros (base k : Nat) (cs : List Char) :
    numeralValue base (List.replicate k '0' ++ cs) = numeralValue base cs := by
  induction k with
  | zero => rfl
  | succ k ih =>
    rw [List.replicate_succ, List.cons_append, ← ih]
    simp [numeralValue, show digitValue '0' = 0 from rfl]

theorem toDigits_injective {base : Nat} (hbase : 1 < base) (hle : base ≤ 16) :
    Function.Injective (Nat.toDigits base) := by
  intro n m h
  rw [← numeralValue_toDigits hbase hle n, h, numeralValue_toDigits hbase hle m]

/-! ## §2 Conversions -/

/-- A conversion of a format. -/
inductive Conv where
  | dec
  | ptr
  | hex (width : Nat)
  | str
  deriving DecidableEq, Repr

/-- An argument of `printf`. -/
inductive Arg where
  | int (z : Int)
  | addr (n : Nat)
  | text (s : List Char)
  deriving DecidableEq, Repr

/-- `%d` of a number of any width. -/
def decimal : Int → List Char
  | .ofNat n => Nat.toDigits 10 n
  | .negSucc n => '-' :: Nat.toDigits 10 (n + 1)

/-- `%x` with zeros up to a width. -/
def hexadecimal (width n : Nat) : List Char :=
  List.replicate (width - (Nat.toDigits 16 n).length) '0' ++ Nat.toDigits 16 n

/-- `%p` -/
def pointer (n : Nat) : List Char :=
  if n = 0 then ['(', 'n', 'i', 'l', ')'] else '0' :: 'x' :: Nat.toDigits 16 n

namespace Conv

/-- What is printed for an argument; nothing for one of another type. -/
def print : Conv → Arg → List Char
  | .dec, .int z => decimal z
  | .ptr, .addr n => pointer n
  | .hex width, .addr n => hexadecimal width n
  | .str, .text s => s
  | _, _ => []

/-- The argument has the type the conversion asks for. A string avoids `stop`. -/
def Accepts (stop : Char) : Conv → Arg → Prop
  | .dec, .int _ => True
  | .ptr, .addr _ => True
  | .hex _, .addr _ => True
  | .str, .text s => stop ∉ s
  | _, _ => False

/-- The characters a conversion prints. -/
def alphabet (stop : Char) : Conv → Char → Bool
  | .dec, c => c == '-' || c.isDigit
  | .ptr, c => ['(', 'n', 'i', 'l', ')', 'x'].contains c || isDigitChar c
  | .hex _, c => isDigitChar c
  | .str, c => c != stop

/-- The conversion always prints something. -/
def numeric : Conv → Bool
  | .str => false
  | _ => true

theorem decimal_forall (z : Int) : ∀ c ∈ decimal z, (c == '-' || c.isDigit) = true := by
  have hdigits : ∀ n, ∀ c ∈ Nat.toDigits 10 n, (c == '-' || c.isDigit) = true := fun n =>
    toDigits_forall (p := fun c => (c == '-' || c.isDigit) = true) (by decide)
      (fun d hd => by simp [isDigit_digitChar hd]) n
  cases z with
  | ofNat n => exact hdigits n
  | negSucc n =>
    intro c hc
    rcases List.mem_cons.mp hc with rfl | hc
    · rfl
    · exact hdigits (n + 1) c hc

theorem decimal_injective : Function.Injective decimal := by
  have hminus : ∀ n m, '-' :: Nat.toDigits 10 n ≠ Nat.toDigits 10 m := by
    intro n m h
    have hall := toDigits_forall (p := fun c => c.isDigit = true) (by decide)
      (fun d hd => isDigit_digitChar hd) m
    rw [← h] at hall
    exact absurd (hall '-' List.mem_cons_self) (by decide)
  have hten : 1 < 10 := by decide
  have hinj := toDigits_injective hten (by decide)
  intro y z h
  cases y with
  | ofNat n =>
    cases z with
    | ofNat m => exact congrArg Int.ofNat (hinj h)
    | negSucc m => exact absurd h.symm (hminus _ _)
  | negSucc n =>
    cases z with
    | ofNat m => exact absurd h (hminus _ _)
    | negSucc m =>
      have htail : Nat.toDigits 10 (n + 1) = Nat.toDigits 10 (m + 1) := (List.cons.inj h).2
      exact congrArg Int.negSucc (Nat.succ.inj (hinj htail))

theorem hexDigits_forall (n : Nat) : ∀ c ∈ Nat.toDigits 16 n, isDigitChar c = true :=
  toDigits_forall (p := fun c => isDigitChar c = true) (by decide)
    (fun _ hd => isDigitChar_digitChar hd) n

theorem hexadecimal_forall (width n : Nat) :
    ∀ c ∈ hexadecimal width n, isDigitChar c = true := by
  intro c hc
  rcases List.mem_append.mp hc with hc | hc
  · rw [(List.mem_replicate.mp hc).2]
    rfl
  · exact hexDigits_forall n c hc

theorem hexadecimal_injective (width : Nat) : Function.Injective (hexadecimal width) := by
  intro n m h
  have hvalue : ∀ k, numeralValue 16 (hexadecimal width k) = k := by
    intro k
    rw [hexadecimal, numeralValue_zeros, numeralValue_toDigits (by decide) (by decide)]
  rw [← hvalue n, h, hvalue m]

theorem pointer_injective : Function.Injective pointer := by
  intro n m h
  unfold pointer at h
  split at h <;> split at h
  · rename_i hn hm
    rw [hn, hm]
  · exact absurd (List.cons.inj h).1 (by decide)
  · exact absurd (List.cons.inj h).1 (by decide)
  · have hdigits : Nat.toDigits 16 n = Nat.toDigits 16 m := by simpa using h
    exact toDigits_injective (by decide) (by decide) hdigits

theorem pointer_forall (n : Nat) : ∀ c ∈ pointer n,
    (['(', 'n', 'i', 'l', ')', 'x'].contains c || isDigitChar c) = true := by
  intro c hc
  unfold pointer at hc
  split at hc
  · have hnil : ∀ c ∈ ['(', 'n', 'i', 'l', ')'],
        (['(', 'n', 'i', 'l', ')', 'x'].contains c || isDigitChar c) = true := by
      simp [isDigitChar]
    exact hnil c hc
  · rcases List.mem_cons.mp hc with rfl | hc
    · rfl
    · rcases List.mem_cons.mp hc with rfl | hc
      · rfl
      · rw [hexDigits_forall n c hc, Bool.or_true]

variable {stop : Char} {k : Conv} {a b : Arg}

theorem print_forall (h : k.Accepts stop a) : ∀ c ∈ k.print a, k.alphabet stop c = true := by
  cases k with
  | dec =>
    cases a with
    | int z => exact decimal_forall z
    | addr n => exact h.elim
    | text s => exact h.elim
  | ptr =>
    cases a with
    | int z => exact h.elim
    | addr n => exact pointer_forall n
    | text s => exact h.elim
  | hex width =>
    cases a with
    | int z => exact h.elim
    | addr n => exact hexadecimal_forall width n
    | text s => exact h.elim
  | str =>
    cases a with
    | int z => exact h.elim
    | addr n => exact h.elim
    | text s =>
      intro c hc
      have hne : c ≠ stop := fun heq => h (heq ▸ hc)
      simpa [alphabet] using hne

theorem print_injective (ha : k.Accepts stop a) (hb : k.Accepts stop b)
    (h : k.print a = k.print b) : a = b := by
  cases k with
  | dec =>
    cases a <;> cases b <;> first | exact ha.elim | exact hb.elim | skip
    exact congrArg Arg.int (decimal_injective h)
  | ptr =>
    cases a <;> cases b <;> first | exact ha.elim | exact hb.elim | skip
    exact congrArg Arg.addr (pointer_injective h)
  | hex width =>
    cases a <;> cases b <;> first | exact ha.elim | exact hb.elim | skip
    exact congrArg Arg.addr (hexadecimal_injective width h)
  | str =>
    cases a <;> cases b <;> first | exact ha.elim | exact hb.elim | skip
    exact congrArg Arg.text h

/-- **A conversion is read back** before a character it never prints. -/
theorem print_cancel {r s : List Char} (ha : k.Accepts stop a) (hb : k.Accepts stop b)
    (hr : Starts (fun c => ¬ k.alphabet stop c = true) r)
    (hs : Starts (fun c => ¬ k.alphabet stop c = true) s)
    (h : k.print a ++ r = k.print b ++ s) : a = b ∧ r = s := by
  obtain ⟨hprint, hrs⟩ := span_cancel hr hs (print_forall ha) (print_forall hb) h
  exact ⟨print_injective ha hb hprint, hrs⟩

theorem print_ne_nil (ha : k.Accepts stop a) (hk : k.numeric = true) : k.print a ≠ [] := by
  cases k with
  | dec =>
    cases a with
    | int z =>
      cases z with
      | ofNat n => exact Nat.toDigits_ne_nil
      | negSucc n => exact List.cons_ne_nil _ _
    | addr n => exact ha.elim
    | text s => exact ha.elim
  | ptr =>
    cases a with
    | int z => exact ha.elim
    | addr n =>
      show pointer n ≠ []
      unfold pointer
      split <;> exact List.cons_ne_nil _ _
    | text s => exact ha.elim
  | hex width =>
    cases a with
    | int z => exact ha.elim
    | addr n => exact List.append_ne_nil_of_right_ne_nil _ Nat.toDigits_ne_nil
    | text s => exact ha.elim
  | str => exact absurd hk (by decide)

end Conv

/-! ## §3 Formats -/

/-- A character of a format, or a conversion. -/
inductive Piece where
  | lit (c : Char)
  | conv (k : Conv)
  deriving DecidableEq, Repr

abbrev Format := List Piece

/-- The pieces of a format string. -/
def pieces : List Char → Format
  | [] => []
  | '%' :: 'd' :: cs => .conv .dec :: pieces cs
  | '%' :: 'l' :: 'd' :: cs => .conv .dec :: pieces cs
  | '%' :: 'l' :: 'l' :: 'u' :: cs => .conv .dec :: pieces cs
  | '%' :: 'z' :: 'u' :: cs => .conv .dec :: pieces cs
  | '%' :: 'p' :: cs => .conv .ptr :: pieces cs
  | '%' :: '0' :: '1' :: '6' :: 'l' :: 'x' :: cs => .conv (.hex 16) :: pieces cs
  | '%' :: 's' :: cs => .conv .str :: pieces cs
  | c :: cs => .lit c :: pieces cs

/-- The format a string literal spells; `rfl` finds its characters. -/
def formatOf (s : String) {cs : List Char} (_ : String.ofList cs = s) : Format := pieces cs

/-- The text of a format with its arguments. -/
def printf : Format → List Arg → List Char
  | [], _ => []
  | .lit c :: f, as => c :: printf f as
  | .conv k :: f, a :: as => k.print a ++ printf f as
  | .conv _ :: f, [] => printf f []

/-- The arguments are the ones the format asks for. -/
def Fits (stop : Char) : Format → List Arg → Prop
  | [], as => as = []
  | .lit _ :: f, as => Fits stop f as
  | .conv k :: f, a :: as => k.Accepts stop a ∧ Fits stop f as
  | .conv _ :: _, [] => False

/-- A text may be printed in two calls. -/
theorem printf_append {stop : Char} {f : Format} (g : Format) (bs : List Arg) :
    ∀ {as : List Arg}, Fits stop f as →
      printf (f ++ g) (as ++ bs) = printf f as ++ printf g bs := by
  induction f with
  | nil =>
    intro as has
    simp only [Fits] at has
    rw [has]
    rfl
  | cons piece f ih =>
    cases piece with
    | lit c =>
      intro as has
      simp only [List.cons_append, printf, ih has]
    | conv k =>
      intro as has
      cases as with
      | nil => exact has.elim
      | cons a as => simp only [List.cons_append, printf, ih has.2, List.append_assoc]

/-- Every conversion is followed by a character it never prints. -/
def readable (stop : Char) : Format → Bool
  | [] => true
  | .lit _ :: f => readable stop f
  | .conv k :: .lit c :: f => !k.alphabet stop c && readable stop (.lit c :: f)
  | .conv _ :: _ => false

/-- The first difference of two formats is one the text shows. -/
def apart (stop : Char) : Format → Format → Bool
  | .lit c :: f, .lit d :: g => c != d || apart stop f g
  | .conv k :: f, .conv l :: g => k == l && apart stop f g
  | .conv k :: _, .lit c :: _ => k.numeric && !k.alphabet stop c
  | .lit c :: _, .conv k :: _ => k.numeric && !k.alphabet stop c
  | _, _ => false

section Formats

variable {stop : Char} {k : Conv} {f g : Format} {as bs : List Arg} {r s : List Char}

theorem readable_tail (h : readable stop (.conv k :: f) = true) : readable stop f = true := by
  cases f with
  | nil => exact absurd h (by simp [readable])
  | cons piece f =>
    cases piece with
    | lit c =>
      simp only [readable, Bool.and_eq_true] at h
      exact h.2
    | conv l => exact absurd h (by simp [readable])

/-- What comes after a conversion ends it. -/
theorem readable_starts (h : readable stop (.conv k :: f) = true) (as : List Arg)
    (r : List Char) : Starts (fun c => ¬ k.alphabet stop c = true) (printf f as ++ r) := by
  cases f with
  | nil => exact absurd h (by simp [readable])
  | cons piece f =>
    cases piece with
    | lit c =>
      simp only [readable, Bool.and_eq_true, Bool.not_eq_true'] at h
      simp [printf, h.1]
    | conv l => exact absurd h (by simp [readable])

theorem printf_ne_nil (hf : readable stop f = true) (hne : f ≠ []) (as : List Arg) :
    printf f as ≠ [] := by
  cases f with
  | nil => exact absurd rfl hne
  | cons piece f =>
    cases piece with
    | lit c => exact List.cons_ne_nil _ _
    | conv k =>
      cases f with
      | nil => exact absurd hf (by simp [readable])
      | cons next f =>
        cases next with
        | lit c =>
          cases as with
          | nil => exact List.cons_ne_nil _ _
          | cons a as => exact List.append_ne_nil_of_right_ne_nil _ (List.cons_ne_nil _ _)
        | conv l => exact absurd hf (by simp [readable])

/-- **The arguments are read back** from the text of a readable format. -/
theorem printf_cancel (hf : readable stop f = true) : ∀ {as bs : List Arg}, Fits stop f as →
    Fits stop f bs → printf f as ++ r = printf f bs ++ s → as = bs ∧ r = s := by
  induction f with
  | nil =>
    intro as bs has hbs h
    simp only [Fits] at has hbs
    exact ⟨by rw [has, hbs], h⟩
  | cons piece f ih =>
    cases piece with
    | lit c =>
      intro as bs has hbs h
      simp only [printf, List.cons_append, List.cons.injEq, true_and] at h
      exact ih hf has hbs h
    | conv k =>
      intro as bs has hbs h
      cases as with
      | nil => exact has.elim
      | cons a as =>
        cases bs with
        | nil => exact hbs.elim
        | cons b bs =>
          simp only [printf, List.append_assoc] at h
          obtain ⟨hab, hrest⟩ := Conv.print_cancel has.1 hbs.1 (readable_starts hf as r)
            (readable_starts hf bs s) h
          obtain ⟨htail, hrs⟩ := ih (readable_tail hf) has.2 hbs.2 hrest
          exact ⟨by rw [hab, htail], hrs⟩

/-- A number is not the start of a text that begins otherwise. -/
theorem print_ne_lit {a : Arg} {c : Char} (ha : k.Accepts stop a)
    (h : (k.numeric && !k.alphabet stop c) = true) : k.print a ++ r ≠ c :: s := by
  simp only [Bool.and_eq_true, Bool.not_eq_true'] at h
  intro heq
  cases hprint : k.print a with
  | nil => exact Conv.print_ne_nil ha h.1 hprint
  | cons x l =>
    rw [hprint, List.cons_append, List.cons.injEq] at heq
    have hx := Conv.print_forall ha x (by rw [hprint]; exact List.mem_cons_self)
    rw [heq.1, h.2] at hx
    exact Bool.false_ne_true hx

/-- **Formats that are apart** never print the same text. -/
theorem printf_ne (hf : readable stop f = true) : ∀ {g : Format} {as bs : List Arg},
    readable stop g = true → apart stop f g = true → Fits stop f as → Fits stop g bs →
    printf f as ++ r ≠ printf g bs ++ s := by
  induction f with
  | nil =>
    intro g as bs _ hfg
    exact absurd hfg (by simp [apart])
  | cons piece f ih =>
    intro g as bs hg hfg has hbs h
    cases g with
    | nil => cases piece <;> exact absurd hfg (by simp [apart])
    | cons piece' g =>
      cases piece with
      | lit c =>
        cases piece' with
        | lit d =>
          simp only [printf, List.cons_append, List.cons.injEq] at h
          simp only [apart, Bool.or_eq_true, bne_iff_ne] at hfg
          rcases hfg with hne | hfg
          · exact hne h.1
          · exact ih (g := g) hf hg hfg has hbs h.2
        | conv l =>
          cases bs with
          | nil => exact hbs.elim
          | cons b bs =>
            simp only [printf, List.cons_append, List.append_assoc] at h
            exact print_ne_lit hbs.1 hfg h.symm
      | conv k =>
        cases as with
        | nil => exact has.elim
        | cons a as =>
          cases piece' with
          | lit d =>
            simp only [printf, List.cons_append, List.append_assoc] at h
            exact print_ne_lit has.1 hfg h
          | conv l =>
            cases bs with
            | nil => exact hbs.elim
            | cons b bs =>
              simp only [apart, Bool.and_eq_true, beq_iff_eq] at hfg
              obtain ⟨rfl, hfg⟩ := hfg
              simp only [printf, List.append_assoc] at h
              obtain ⟨-, hrest⟩ := Conv.print_cancel has.1 hbs.1 (readable_starts hf as r)
                (readable_starts hg bs s) h
              exact ih (readable_tail hf) (readable_tail hg) hfg has.2 hbs.2 hrest

end Formats

/-! ## §4 Lines -/

/-- A line of a text: which format of a table, and its arguments. -/
structure Line (κ : Type u) where
  kind : κ
  args : List Arg
  deriving DecidableEq

variable {κ : Type u}

/-- The characters of a line. -/
def Line.chars (table : κ → Format) (l : Line κ) : List Char := printf (table l.kind) l.args

/-- The table passes both checks. -/
structure Checked (stop : Char) (table : κ → Format) : Prop where
  readable : ∀ k, Formats.readable stop (table k) = true
  apart : ∀ k l, k ≠ l → Formats.apart stop (table k) (table l) = true

/-- **A line is read back**: which format it has, and all its arguments. -/
theorem Checked.line_cancel {stop : Char} {table : κ → Format} (h : Checked stop table)
    {l m : Line κ} {r s : List Char} (hl : Fits stop (table l.kind) l.args)
    (hm : Fits stop (table m.kind) m.args) (heq : l.chars table ++ r = m.chars table ++ s) :
    l = m ∧ r = s := by
  obtain ⟨k, as⟩ := l
  obtain ⟨k', bs⟩ := m
  by_cases hkind : k = k'
  · subst hkind
    obtain ⟨rfl, hrs⟩ := printf_cancel (h.readable k) hl hm heq
    exact ⟨rfl, hrs⟩
  · exact absurd heq (printf_ne (h.readable k) (h.readable k') (h.apart k k' hkind) hl hm)

/-- Lines whose arguments fit, each behind the same prefix, are legible before anything. -/
theorem Checked.line_legible {stop : Char} {table : κ → Format} (h : Checked stop table)
    (pre : List Char) :
    Legible (fun l : { l : Line κ // Fits stop (table l.kind) l.args } =>
      pre ++ l.val.chars table) (fun _ => True) := by
  refine Legible.after ?_ pre
  intro l m r s _ _ heq
  obtain ⟨hlm, hrs⟩ := h.line_cancel l.property m.property heq
  exact ⟨Subtype.ext hlm, hrs⟩

/-- **So is a text of lines.** -/
theorem Checked.lines_injective {stop : Char} {table : κ → Format} (h : Checked stop table)
    (hne : ∀ k, table k ≠ []) (pre : List Char) {ls ms : List (Line κ)}
    (hls : ∀ l ∈ ls, Fits stop (table l.kind) l.args)
    (hms : ∀ m ∈ ms, Fits stop (table m.kind) m.args)
    (heq : ls.flatMap (fun l => pre ++ l.chars table) =
      ms.flatMap (fun l => pre ++ l.chars table)) : ls = ms := by
  have hopens : Opens (fun l : { l : Line κ // Fits stop (table l.kind) l.args } =>
      pre ++ l.val.chars table) (fun _ => True) := by
    intro l
    obtain ⟨x, tail, hx⟩ := List.exists_cons_of_ne_nil
      (List.append_ne_nil_of_right_ne_nil pre
        (printf_ne_nil (h.readable l.val.kind) (hne l.val.kind) l.val.args))
    exact ⟨x, tail, hx, trivial⟩
  have hmany := ((h.line_legible pre).many (q := fun _ => False) (fun _ => True) hopens
    (fun _ => id) (fun _ => False.elim) (fun _ _ => id)).injective
  have hattach : ∀ (ks : List (Line κ)) (hks : ∀ l ∈ ks, Fits stop (table l.kind) l.args),
      (ks.attachWith _ hks).flatMap (fun l => pre ++ l.val.chars table) =
        ks.flatMap (fun l => pre ++ l.chars table) := by
    intro ks hks
    exact congrArg List.flatten
      (List.attachWith_map_val (f := fun l : Line κ => pre ++ l.chars table) hks)
  have hlists := hmany (((hattach ls hls).trans heq).trans (hattach ms hms).symm)
  calc ls = (ls.attachWith _ hls).map Subtype.val := (List.attachWith_map_subtype_val hls).symm
    _ = (ms.attachWith _ hms).map Subtype.val := by rw [hlists]
    _ = ms := List.attachWith_map_subtype_val hms

end Formats
