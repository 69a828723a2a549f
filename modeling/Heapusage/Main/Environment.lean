/-
Heapusage.Main.Environment — what `hu_init` reads from the environment.

`getenv`, `hu_get_env_bool`, `strtoll` with its saturation, and the
conversions of its result: to `size_t` for `HU_MINSIZE`, to `int` for
`HU_QUARANTINE` and `HU_SIGNO`. `hu_malloc_init` computes the limit of the
quarantine from the percentage in `size_t` arithmetic. The variables the
library was loaded with are removed for child processes.

§1 The environment and numbers in it. §2 `hu_init`. §3 What a numeral is read
as, and when the limit is the percentage it stands for.
-/
import Heapusage.Log.LogFile
import Heapusage.Main.HuMain
import Heapusage.Lib.Getopts

namespace Heapusage

open Formats Getopts Writers

/-! ## §1 The environment -/

/-- `getenv` -/
abbrev Environ := String → Option Word

namespace Environ

/-- `setenv` -/
def set (name : String) (value : Word) (env : Environ) : Environ :=
  fun n => if n = name then some value else env n

/-- `unsetenv` -/
def unset (name : String) (env : Environ) : Environ := fun n => if n = name then none else env n

/-- `hu_get_env_bool` -/
def huGetEnvBool (env : Environ) (name : String) : Bool :=
  match env name with
  | none => false
  | some value => value == ['1']

end Environ

/-- `isspace` -/
def isSpace (c : Char) : Bool := c == ' ' || ('\t' ≤ c && c ≤ '\r')

/-- `strtoll` with base 10: spaces, a sign, digits; the nearest number there is. -/
def strtoll (s : Word) : Int :=
  match s.dropWhile isSpace with
  | '-' :: cs => max (-2 ^ 63) (-(numeralValue 10 (cs.takeWhile Char.isDigit) : Nat))
  | '+' :: cs => min (2 ^ 63 - 1) (numeralValue 10 (cs.takeWhile Char.isDigit) : Nat)
  | cs => min (2 ^ 63 - 1) (numeralValue 10 (cs.takeWhile Char.isDigit) : Nat)

/-- The conversion of a `long long` to `size_t`. -/
def toSizeT (z : Int) : Nat := (z % 2 ^ 64).toNat

/-- The conversion to `int`. -/
def toInt (z : Int) : Int := Int.bmod z (2 ^ 32)

/-! ## §2 `hu_init` -/

/-- What the system tells the constructor of the library. -/
structure Platform where
  numPages : Nat
  pageSize : Nat
  maxMapCount : Nat
  pid : Nat
  realpath : Word → Option Word
  /-- `fopen` for writing succeeds -/
  writable : Word → Bool
  objfile : Nat → String

/-- What `hu_init` leaves behind. -/
structure Settings where
  config : HuConfig
  huFile : Word
  fileConfig : FileConfig
  huLogSigno : Int
  environ : Environ

/-- `PATH_MAX` -/
def pathMax : Nat := 4096

/-- `hu_file` -/
def huFile (p : Platform) (env : Environ) : Word :=
  match env "HU_FILE" with
  | some file =>
      match p.realpath file with
      | some resolved => resolved
      | none => file.take (pathMax - 1)
  | none => "hulog.txt".toList

/-- `hu_quarantine_pct` -/
def huQuarantinePct (env : Environ) : Int :=
  match env "HU_QUARANTINE" with
  | some (c :: cs) => toInt (strtoll (c :: cs))
  | _ => 10

/-- `hu_quarantine_max_size`, as `hu_malloc_init` computes it. -/
def huQuarantineMaxSize (p : Platform) (pct : Int) : Nat :=
  Words.mul 64 (Words.mul 64 p.numPages p.pageSize) (toSizeT pct) / 100

/-- A variable that holds a number; 0 if it is not set. -/
def Environ.number (env : Environ) (name : String) : Int :=
  match env name with
  | some value => strtoll value
  | none => 0

/-- `hu_init`, up to what it starts. -/
def huInitSettings (p : Platform) (env : Environ) : Settings :=
  let huDoublefree := env.huGetEnvBool "HU_DOUBLEFREE"
  let huLeak := env.huGetEnvBool "HU_LEAK"
  let huOverflow := env.huGetEnvBool "HU_OVERFLOW"
  let huUseafterfree := env.huGetEnvBool "HU_USEAFTERFREE"
  let file := huFile p env
  let huMinsize := toSizeT (env.number "HU_MINSIZE")
  let huNosyms := env.huGetEnvBool "HU_NOSYMS"
  let huCommand := env "HU_COMMAND"
  let huLogPidPrefix := env.huGetEnvBool "HU_LOGPID"
  let huLogRepeat := env.huGetEnvBool "HU_REPEAT"
  { config :=
      { huDoublefree := huDoublefree
        huLeak := huLeak
        huOverflow := huOverflow
        huUseafterfree := huUseafterfree
        huMinsize := huMinsize
        huLogRepeat := huLogRepeat
        huPageSize := p.pageSize
        huQuarantineMaxSize :=
          if huOverflow || huUseafterfree then huQuarantineMaxSize p (huQuarantinePct env) else 0
        maxMapCount := p.maxMapCount
        logWritable := p.writable file
        objfile := p.objfile }
    huFile := file
    fileConfig :=
      .make huLogPidPrefix huNosyms p.pid ((env "HU_VERSION").map String.ofList)
        (huCommand.map String.ofList)
    huLogSigno := toInt (env.number "HU_SIGNO")
    environ := (env.unset "DYLD_INSERT_LIBRARIES").unset "LD_PRELOAD" }

/-! ## §3 Numerals -/

section Numerals

variable {pre rest : Word}

/-- The digits of a number, and what `strtoll` makes of them. -/
theorem digits_value (hrest : Starts (fun c => ¬ c.isDigit = true) rest) (n : Nat) :
    numeralValue 10 ((Nat.toDigits 10 n ++ rest).takeWhile Char.isDigit) = n := by
  have hdigits : ∀ c ∈ Nat.toDigits 10 n, c.isDigit = true :=
    toDigits_forall (by decide) (fun d hd => isDigit_digitChar hd) n
  have hstop : rest.takeWhile Char.isDigit = [] := by
    cases rest with
    | nil => rfl
    | cons c cs => exact List.takeWhile_cons_of_neg (by simpa using hrest)
  rw [List.takeWhile_append_of_pos hdigits, hstop, List.append_nil]
  exact numeralValue_toDigits (by decide) (by decide) n

/-- A digit is no space and no sign. -/
theorem digits_start (n : Nat) : ∃ c cs, Nat.toDigits 10 n = c :: cs ∧ isSpace c = false ∧
    c ≠ '-' ∧ c ≠ '+' := by
  have hdigits : ∀ c ∈ Nat.toDigits 10 n, isSpace c = false ∧ c ≠ '-' ∧ c ≠ '+' := by
    refine toDigits_forall (by decide) (fun d hd => ?_) n
    have hall : ∀ d : Fin 10, isSpace d.val.digitChar = false ∧ d.val.digitChar ≠ '-' ∧
        d.val.digitChar ≠ '+' := by decide
    exact hall ⟨d, hd⟩
  obtain ⟨c, cs, hcs⟩ := List.exists_cons_of_ne_nil (Nat.toDigits_ne_nil (b := 10) (n := n))
  rw [hcs] at hdigits
  exact ⟨c, cs, hcs, hdigits c List.mem_cons_self⟩

theorem strtoll_spaces (hpre : ∀ c ∈ pre, isSpace c = true) (s : Word) :
    strtoll (pre ++ s) = strtoll s := by
  rw [strtoll, strtoll, List.dropWhile_append_of_pos hpre]

/-- **A numeral is read as its number**, or as the nearest one a `long long` can
hold, after spaces and up to the first character that is no digit. -/
theorem strtoll_decimal (hpre : ∀ c ∈ pre, isSpace c = true)
    (hrest : Starts (fun c => ¬ c.isDigit = true) rest) (z : Int) :
    strtoll (pre ++ (decimal z ++ rest)) = max (-2 ^ 63) (min (2 ^ 63 - 1) z) := by
  rw [strtoll_spaces hpre]
  cases z with
  | ofNat n =>
    obtain ⟨c, cs, hcs, hspace, hminus, hplus⟩ := digits_start n
    have hvalue := digits_value hrest n
    have hread : strtoll (decimal (.ofNat n) ++ rest) = min (2 ^ 63 - 1) (n : Int) := by
      rw [hcs] at hvalue
      rw [decimal, hcs, strtoll, List.cons_append, List.dropWhile_cons_of_neg (by simp [hspace])]
      split
      · rename_i heq
        exact absurd (List.cons.inj heq).1 hminus
      · rename_i heq
        exact absurd (List.cons.inj heq).1 hplus
      · rw [← List.cons_append, hvalue]
    rw [hread, Int.ofNat_eq_natCast]
    omega
  | negSucc n =>
    have hread : strtoll (decimal (.negSucc n) ++ rest) = max (-2 ^ 63) (-((n + 1 : Nat) : Int)) := by
      rw [decimal, strtoll, List.cons_append, List.dropWhile_cons_of_neg (by decide)]
      show max (-2 ^ 63) (-((numeralValue 10 _ : Nat) : Int)) = _
      rw [digits_value hrest]
    rw [hread, Int.negSucc_eq]
    omega

end Numerals

/-! ## §4 Numbers of the configuration -/

section Numbers

variable {p : Platform} {env : Environ} {rest : Word}

/-- A number that fits an `int` keeps its value. -/
theorem toInt_eq {z : Int} (hlow : -2 ^ 31 ≤ z) (hhigh : z < 2 ^ 31) : toInt z = z := by
  refine Int.bmod_eq_of_le ?_ ?_ <;> omega

theorem toSizeT_nonneg {z : Int} (hlow : 0 ≤ z) (hhigh : z < 2 ^ 64) : toSizeT z = z.toNat := by
  rw [toSizeT, Int.emod_eq_of_lt hlow hhigh]

theorem toSizeT_neg {z : Int} (hlow : -2 ^ 64 ≤ z) (hhigh : z < 0) :
    toSizeT z = 2 ^ 64 - z.natAbs := by
  have hwrap : z % 2 ^ 64 = z + 2 ^ 64 := by omega
  rw [toSizeT, hwrap]
  omega

end Numbers

/-- **The least size from its numeral**: numbers below `2 ^ 63` as they are,
greater ones as `2 ^ 63 - 1`; a negative number turns into one near `2 ^ 64`. -/
theorem minsize_of_numeral (p : Platform) (env : Environ) (z : Int) (rest : Word)
    (hrest : Starts (fun c => ¬ c.isDigit = true) rest)
    (henv : env "HU_MINSIZE" = some (decimal z ++ rest)) :
    (huInitSettings p env).config.huMinsize =
      if 0 ≤ z then min z.toNat (2 ^ 63 - 1) else 2 ^ 64 - min z.natAbs (2 ^ 63) := by
  have hnumber : env.number "HU_MINSIZE" = max (-2 ^ 63) (min (2 ^ 63 - 1) z) := by
    have hread : strtoll ([] ++ (decimal z ++ rest)) = max (-2 ^ 63) (min (2 ^ 63 - 1) z) :=
      strtoll_decimal (by simp) hrest z
    rw [Environ.number, henv]
    exact hread
  show toSizeT (env.number "HU_MINSIZE") = _
  rw [hnumber]
  split
  · rw [toSizeT_nonneg (by omega) (by omega)]
    omega
  · rw [toSizeT_neg (by omega) (by omega)]
    omega

/-- A machine with 16 GiB, and an empty environment. -/
def Platform.small : Platform where
  numPages := 4194304
  pageSize := 4096
  maxMapCount := 65530
  pid := 77
  realpath := fun _ => none
  writable := fun _ => true
  objfile := fun _ => "prog"

def Environ.empty : Environ := fun _ => none

/-- A negative size. -/
theorem minsize_of_numeral_negative :
    (huInitSettings .small (Environ.empty.set "HU_MINSIZE" "-5k".toList)).config.huMinsize =
      2 ^ 64 - 5 := by
  rw [minsize_of_numeral .small (Environ.empty.set "HU_MINSIZE" "-5k".toList) (-5) ['k']
    (by simp [Char.isDigit]) rfl]
  decide

/-- **The quarantine limit is the percentage of the memory** exactly if the
product of the two, before it is divided by 100, has 64 bits. -/
theorem quarantine_limit_exact_iff (p : Platform) (env : Environ) (pct : Nat) (rest : Word)
    (hmemory : p.numPages * p.pageSize < 2 ^ 64) (hpct : pct < 2 ^ 31)
    (hrest : Starts (fun c => ¬ c.isDigit = true) rest)
    (henv : env "HU_QUARANTINE" = some (decimal pct ++ rest))
    (hon : (env.huGetEnvBool "HU_OVERFLOW" || env.huGetEnvBool "HU_USEAFTERFREE") = true) :
    (huInitSettings p env).config.huQuarantineMaxSize = p.numPages * p.pageSize * pct / 100 ↔
      p.numPages * p.pageSize * pct < 2 ^ 64 := by
  have hread : huQuarantinePct env = pct := by
    have hnumber : strtoll ([] ++ (decimal pct ++ rest)) =
        max (-2 ^ 63) (min (2 ^ 63 - 1) (pct : Int)) :=
      strtoll_decimal (by simp) hrest pct
    obtain ⟨c, cs, hcs⟩ := List.exists_cons_of_ne_nil (Nat.toDigits_ne_nil (b := 10) (n := pct))
    have htext : decimal pct ++ rest = c :: (cs ++ rest) := by
      show Nat.toDigits 10 pct ++ rest = _
      rw [hcs, List.cons_append]
    rw [List.nil_append, htext] at hnumber
    rw [huQuarantinePct, henv, htext]
    show toInt (strtoll (c :: (cs ++ rest))) = pct
    rw [hnumber, toInt_eq (by omega) (by omega)]
    omega
  have hlimit : (huInitSettings p env).config.huQuarantineMaxSize =
      Words.mul 64 (p.numPages * p.pageSize) pct / 100 := by
    show (if _ then Heapusage.huQuarantineMaxSize p (huQuarantinePct env) else 0) = _
    rw [if_pos hon, hread, huQuarantineMaxSize, Words.mul_eq hmemory,
      toSizeT_nonneg (by omega) (by omega)]
    rfl
  rw [hlimit]
  exact Words.mul_quotient_iff (by decide) (by decide)

/-- Ten per cent of 16 GiB. -/
theorem quarantine_limit_exact_ten :
    (huInitSettings .small ((Environ.empty.set "HU_QUARANTINE" ['1', '0']).set "HU_OVERFLOW"
        ['1'])).config.huQuarantineMaxSize = 4194304 * 4096 * 10 / 100 ↔
      4194304 * 4096 * 10 < 2 ^ 64 :=
  quarantine_limit_exact_iff .small
    ((Environ.empty.set "HU_QUARANTINE" ['1', '0']).set "HU_OVERFLOW" ['1']) 10 [] (by decide)
    (by decide) (by simp) rfl rfl

end Heapusage
