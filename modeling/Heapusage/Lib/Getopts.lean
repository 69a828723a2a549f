/-
Heapusage.Lib.Getopts — the shell's `getopts`, on words that are lists of characters.

An option string names the options; a colon after one says that it takes an
argument. Options may be clustered in one word, an argument may be the rest of
its word or the next word, `--` ends the options, and so does the first word
that is none. `parse` gives what the calls of `getopts` report one after the
other, and the words that are left; no words if a call reported `?`.

§1 The parser. §2 What it reports: known options only, and the words left are
the last words of the line (`parse_suffix`). §3 The options written one to a
word (`render`) are read back, before anything that is no option
(`parse_render`); so every accepted line has a plain form that means the same
(`parse_canonical`).
-/
import Mathlib.Data.List.Basic

namespace Getopts

/-- A word of a command line. -/
abbrev Word := List Char

/-- What a call reports: a flag, or an option with its argument. -/
inductive Opt where
  | flag (c : Char)
  | arg (c : Char) (value : Word)
  deriving DecidableEq, Repr

/-! ## §1 The parser -/

/-- `none` for an unknown option, else whether it takes an argument. -/
def takesArg (optstring : Word) (c : Char) : Option Bool :=
  if c = ':' then none
  else
    match optstring.dropWhile (· != c) with
    | [] => none
    | _ :: ':' :: _ => some true
    | _ :: _ => some false

/-- How a word of options ends: with its last flag, with an option and what is
left of the word for its argument, or with an unknown option. -/
inductive Ending where
  | done
  | wants (c : Char) (rest : Word)
  | unknown
  deriving DecidableEq, Repr

/-- The options of one word, behind the dash. -/
def cluster (optstring : Word) : Word → List Opt × Ending
  | [] => ([], .done)
  | c :: cs =>
      match takesArg optstring c with
      | none => ([], .unknown)
      | some false => (.flag c :: (cluster optstring cs).1, (cluster optstring cs).2)
      | some true => ([], .wants c cs)

/-- What was reported, and the words left; `none` after a report of `?`. -/
structure Parsed where
  opts : List Opt
  rest : Option (List Word)
  deriving DecidableEq, Repr

/-- Options reported before. -/
def Parsed.push (es : List Opt) (p : Parsed) : Parsed := { p with opts := es ++ p.opts }

/-- What a word is where an option may stand. -/
inductive Kind where
  | operand
  | endOfOptions
  | options (es : List Opt) (ending : Ending)
  deriving DecidableEq, Repr

def kind (optstring : Word) : Word → Kind
  | ['-'] => .operand
  | ['-', '-'] => .endOfOptions
  | '-' :: cs => .options (cluster optstring cs).1 (cluster optstring cs).2
  | _ => .operand

/-- The loop `while getopts …`, and the `shift` after it. -/
def parse (optstring : Word) : List Word → Parsed
  | [] => ⟨[], some []⟩
  | w :: ws =>
      match kind optstring w with
      | .operand => ⟨[], some (w :: ws)⟩
      | .endOfOptions => ⟨[], some ws⟩
      | .options es .done => (parse optstring ws).push es
      | .options es .unknown => ⟨es, none⟩
      | .options es (.wants c (x :: xs)) => (parse optstring ws).push (es ++ [.arg c (x :: xs)])
      | .options es (.wants c []) =>
          match ws with
          | [] => ⟨es, none⟩
          | v :: ws => (parse optstring ws).push (es ++ [.arg c v])

/-- The options, one to a word, arguments in the next word. -/
def render : List Opt → List Word
  | [] => []
  | .flag c :: es => ['-', c] :: render es
  | .arg c v :: es => ['-', c] :: v :: render es

section Rules

variable {optstring : Word} {c : Char} {es : List Opt} {ws rest : List Word}

@[simp] theorem push_nil (p : Parsed) : p.push [] = p := rfl

theorem push_push (es fs : List Opt) (p : Parsed) : (p.push fs).push es = p.push (es ++ fs) := by
  simp [Parsed.push]

/-! ## §2 What is reported -/

/-- An option the string names, with an argument if it takes one. -/
def Opt.Known (optstring : Word) : Opt → Prop
  | .flag c => takesArg optstring c = some false
  | .arg c _ => takesArg optstring c = some true

theorem cluster_known (cs : Word) :
    (∀ e ∈ (cluster optstring cs).1, e.Known optstring) ∧
      ∀ c v, (cluster optstring cs).2 = .wants c v → takesArg optstring c = some true := by
  induction cs with
  | nil => simp [cluster]
  | cons x cs ih =>
    unfold cluster
    cases hx : takesArg optstring x with
    | none => simp
    | some takes =>
      cases takes with
      | false =>
        refine ⟨?_, ih.2⟩
        simp only [List.forall_mem_cons]
        exact ⟨hx, ih.1⟩
      | true =>
        simp only [List.not_mem_nil, Ending.wants.injEq]
        exact ⟨fun _ he => he.elim, fun c _ hc => hc.1 ▸ hx⟩

theorem kind_known {w : Word} {ending : Ending} (h : kind optstring w = .options es ending) :
    (∀ e ∈ es, e.Known optstring) ∧
      ∀ c v, ending = .wants c v → takesArg optstring c = some true := by
  unfold kind at h
  split at h
  · cases h
  · cases h
  · rename_i cs _ _
    obtain ⟨rfl, rfl⟩ := Kind.options.inj h
    exact cluster_known cs
  · cases h

/-- **Only options the string names are reported.** -/
theorem parse_known (ws : List Word) : ∀ e ∈ (parse optstring ws).opts, e.Known optstring := by
  induction ws using parse.induct optstring with
  | case1 => simp [parse]
  | case2 w ws hw => simp [parse, hw]
  | case3 w ws hw => simp [parse, hw]
  | case4 w ws es hw ih =>
    rw [parse, hw]
    exact List.forall_mem_append.mpr ⟨(kind_known hw).1, ih⟩
  | case5 w ws es hw =>
    rw [parse, hw]
    exact (kind_known hw).1
  | case6 w ws es c x xs hw ih =>
    rw [parse, hw]
    have harg : (Opt.arg c (x :: xs)).Known optstring := (kind_known hw).2 c _ rfl
    exact List.forall_mem_append.mpr
      ⟨List.forall_mem_append.mpr ⟨(kind_known hw).1, by simpa using harg⟩, ih⟩
  | case7 w es c hw =>
    rw [parse, hw]
    exact (kind_known hw).1
  | case8 w es c hw v ws ih =>
    rw [parse, hw]
    have harg : (Opt.arg c v).Known optstring := (kind_known hw).2 c _ rfl
    exact List.forall_mem_append.mpr
      ⟨List.forall_mem_append.mpr ⟨(kind_known hw).1, by simpa using harg⟩, ih⟩

/-- **The words left are the last words of the line.** -/
theorem parse_suffix (ws : List Word) : ∀ rest, (parse optstring ws).rest = some rest →
    rest <:+ ws := by
  induction ws using parse.induct optstring with
  | case1 =>
    intro rest h
    cases h
    exact List.suffix_refl _
  | case2 w ws hw =>
    intro rest h
    rw [parse, hw] at h
    cases h
    exact List.suffix_refl _
  | case3 w ws hw =>
    intro rest h
    rw [parse, hw] at h
    cases h
    exact List.suffix_cons w ws
  | case4 w ws es hw ih =>
    intro rest h
    rw [parse, hw] at h
    exact (ih rest h).trans (List.suffix_cons w ws)
  | case5 w ws es hw =>
    intro rest h
    rw [parse, hw] at h
    cases h
  | case6 w ws es c x xs hw ih =>
    intro rest h
    rw [parse, hw] at h
    exact (ih rest h).trans (List.suffix_cons w ws)
  | case7 w es c hw =>
    intro rest h
    rw [parse, hw] at h
    cases h
  | case8 w es c hw v ws ih =>
    intro rest h
    rw [parse, hw] at h
    exact ((ih rest h).trans (List.suffix_cons v ws)).trans (List.suffix_cons w (v :: ws))

/-! ## §3 Options one to a word -/

theorem parse_flag (hc : takesArg optstring c = some false) (hdash : c ≠ '-') (ws : List Word) :
    parse optstring (['-', c] :: ws) = (parse optstring ws).push [.flag c] := by
  have hkind : kind optstring ['-', c] = .options [.flag c] .done := by
    simp [kind, hdash, cluster, hc]
  rw [parse, hkind]

theorem parse_arg (hc : takesArg optstring c = some true) (hdash : c ≠ '-') (v : Word)
    (ws : List Word) :
    parse optstring (['-', c] :: v :: ws) = (parse optstring ws).push [.arg c v] := by
  have hkind : kind optstring ['-', c] = .options [] (.wants c []) := by
    simp [kind, hdash, cluster, hc]
  rw [parse, hkind]
  rfl

/-- `--` ends the options, and so does an operand. -/
theorem parse_end (ws : List Word) : parse optstring (['-', '-'] :: ws) = ⟨[], some ws⟩ := rfl

/-- **Round trip**: options written one to a word are reported, and the parsing
goes on behind them. The dash is no option. -/
theorem parse_render (hdash : takesArg optstring '-' = none) (es : List Opt)
    (h : ∀ e ∈ es, e.Known optstring) (ws : List Word) :
    parse optstring (render es ++ ws) = (parse optstring ws).push es := by
  have hne : ∀ {c b}, takesArg optstring c = some b → c ≠ '-' := by
    rintro c b hc rfl
    rw [hdash] at hc
    cases hc
  induction es with
  | nil => rfl
  | cons e es ih =>
    rw [List.forall_mem_cons] at h
    cases e with
    | flag c =>
      rw [render, List.cons_append, parse_flag h.1 (hne h.1), ih h.2, push_push]
      rfl
    | arg c v =>
      rw [render, List.cons_append, List.cons_append, parse_arg h.1 (hne h.1), ih h.2, push_push]
      rfl

/-- **Every accepted line has a plain form** that means the same. -/
theorem parse_canonical (hdash : takesArg optstring '-' = none)
    (h : parse optstring ws = ⟨es, some rest⟩) :
    parse optstring (render es ++ ['-', '-'] :: rest) = ⟨es, some rest⟩ := by
  have hknown : ∀ e ∈ es, e.Known optstring := by
    have hws : ∀ e ∈ (parse optstring ws).opts, e.Known optstring := parse_known ws
    rwa [h] at hws
  rw [parse_render hdash es hknown, parse_end]
  simp [Parsed.push]

end Rules

end Getopts
