/-
Heapusage.Main.LauncherTheorems — from the command line to `hu_init`.

§1 Options: the last one of its kind counts, whatever the order (`readOptions_eq`).
§2 Tools: a tool is on if one of its names is among the words (`enabledTools_eq`).
§3 The script: how a run comes about (`launch_run`); clusters, glued arguments
   and `--` make no difference (`launch_canonical`).
§4 What `hu_init` makes of the variables (`launch_configures`): the inherited
   environment has no part in it.
-/
import Heapusage.Main.Launcher

namespace Heapusage

open Getopts Formats

/-! ## §1 Options -/

/-- The argument, if the option is `c`. -/
def argOf (c : Char) : Opt → Option Word
  | .arg d v => if d = c then some v else none
  | .flag _ => none

/-- The argument of the last option `c`, read in some way. -/
def lastArg (read : Word → Word) (c : Char) (dflt : Word) (es : List Opt) : Word :=
  ((es.filterMap (argOf c)).getLast?.map read).getD dflt

/-- The number of a signal option. -/
def Host.signo (h : Host) (value : Word) : Word :=
  if isNumber value then value else h.killList (h.unquoted value)

/-- The variables after the options. -/
def Options.after (h : Host) (es : List Opt) (o : Options) : Options where
  codesignapp := lastArg id 'c' o.codesignapp es
  debug := o.debug || es.contains (.flag 'd')
  logpid := o.logpid || es.contains (.flag 'i')
  minsize := lastArg id 'm' o.minsize es
  nosyms := o.nosyms || es.contains (.flag 'n')
  outfile := lastArg id 'o' o.outfile es
  quarantine := lastArg id 'q' o.quarantine es
  repeatErrors := o.repeatErrors || es.contains (.flag 'r')
  signo := lastArg h.signo 's' o.signo es
  tools := lastArg id 't' o.tools es

section Last

variable {read : Word → Word} {c d : Char} {v dflt : Word} {es : List Opt}

theorem argOf_self : argOf c (.arg c v) = some v := if_pos rfl

theorem argOf_other (hd : d ≠ c) : argOf c (.arg d v) = none := if_neg hd

/-- An option of the kind replaces what was there before. -/
@[simp] theorem lastArg_self : lastArg read c dflt (.arg c v :: es) = lastArg read c (read v) es := by
  rw [lastArg, List.filterMap_cons_some argOf_self, List.getLast?_cons, lastArg]
  cases (es.filterMap (argOf c)).getLast? <;> rfl

@[simp] theorem lastArg_flag : lastArg read c dflt (.flag d :: es) = lastArg read c dflt es := by
  rw [lastArg, List.filterMap_cons_none rfl, lastArg]

theorem lastArg_other (hd : d ≠ c) :
    lastArg read c dflt (.arg d v :: es) = lastArg read c dflt es := by
  rw [lastArg, List.filterMap_cons_none (argOf_other hd), lastArg]

end Last

section Options

variable {h : Host} {o o' : Options}

/-- The number of an accepted signal option. -/
theorem signal_eq {value signo : Word} (hsignal : h.signal value = .ok signo) :
    h.signo value = signo := by
  unfold Host.signal at hsignal
  unfold Host.signo
  split at hsignal
  · rename_i hnumber
    rw [if_pos hnumber]
    exact Except.ok.inj hsignal
  · rename_i hnumber
    rw [if_neg hnumber]
    simp only at hsignal
    split at hsignal
    · cases hsignal
    · exact Except.ok.inj hsignal

/-- One option changes one variable. -/
theorem apply_after {e : Opt} (happly : o.apply h e = .ok o') (es : List Opt) :
    o'.after h es = o.after h (e :: es) := by
  unfold Options.apply at happly
  split at happly
  · cases happly
  · cases happly
    simp [Options.after, lastArg_other]
  · cases happly
    simp [Options.after]
  · cases happly
    simp [Options.after]
  · cases happly
    simp [Options.after, lastArg_other]
  · cases happly
    simp [Options.after]
  · cases happly
    simp [Options.after, lastArg_other]
  · cases happly
    simp [Options.after, lastArg_other]
  · cases happly
    simp [Options.after]
  · split at happly
    · rename_i hsignal
      cases happly
      simp [Options.after, lastArg_other, signal_eq hsignal]
    · cases happly
  · cases happly
    simp [Options.after, lastArg_other]
  · cases happly
    cases e with
    | flag c => simp_all [Options.after, @eq_comm Char _ c]
    | arg c v => simp_all [Options.after, lastArg_other]

/-- **The last option of its kind counts**, and the order of the others does not. -/
theorem readOptions_eq (es : List Opt) : ∀ {o o' : Options}, readOptions h es o = .ok o' →
    o' = o.after h es := by
  induction es with
  | nil =>
    intro o o' hread
    cases hread
    simp [Options.after, lastArg]
  | cons e es ih =>
    intro o o' hread
    rw [readOptions] at hread
    split at hread
    · rename_i happly
      rw [ih hread, apply_after happly]
    · cases hread

end Options

/-! ## §2 Tools -/

/-- One of the names is among the words. -/
def selected (names : List String) (ws : List Word) : Bool :=
  ws.any fun w => names.any fun name => w = name.toList

theorem selected_cons (names : List String) (w : Word) (ws : List Word) :
    selected names (w :: ws) = (selected names [w] || selected names ws) := by
  simp [selected]

/-- One word of the list. -/
theorem enable_eq (t : Tools) (w : Word) : t.enable w =
    { doublefree := t.doublefree || selected ["all", "double-free", "error"] [w]
      leak := t.leak || selected ["all", "leak"] [w]
      overflow := t.overflow || selected ["all", "overflow", "error"] [w]
      useafterfree := t.useafterfree || selected ["all", "use-after-free", "error"] [w] } := by
  unfold Tools.enable
  split_ifs <;> simp_all [selected]

/-- The loop over the tools. -/
theorem enable_foldl (ws : List Word) : ∀ t : Tools, ws.foldl Tools.enable t =
    { doublefree := t.doublefree || selected ["all", "double-free", "error"] ws
      leak := t.leak || selected ["all", "leak"] ws
      overflow := t.overflow || selected ["all", "overflow", "error"] ws
      useafterfree := t.useafterfree || selected ["all", "use-after-free", "error"] ws } := by
  induction ws with
  | nil => simp [selected]
  | cons w ws ih =>
    intro t
    have hcons := fun names => selected_cons names w ws
    rw [List.foldl_cons, ih, enable_eq]
    simp only [hcons, Bool.or_assoc]

/-- **A tool is on if one of its names is among the words.** -/
theorem enabledTools_eq (h : Host) (tools : Word) : h.enabledTools tools =
    { doublefree := selected ["all", "double-free", "error"] (h.toolWords tools)
      leak := selected ["all", "leak"] (h.toolWords tools)
      overflow := selected ["all", "overflow", "error"] (h.toolWords tools)
      useafterfree := selected ["all", "use-after-free", "error"] (h.toolWords tools) } := by
  simp [Host.enabledTools, enable_foldl]

/-! ## §3 The script -/

section Script

variable {h : Host} {args program rest : List Word} {es : List Opt} {o : Options} {l : Launch}

/-- The tools are selected, the library is found, and there is no debugger. -/
theorem launchTools_run {debugger : Option Debugger} {libname : Word}
    (hrun : launchTools h o debugger libname program = .run l) :
    debugger = none ∧ (h.enabledTools o.tools).any = true ∧ l.program = program ∧
      ∃ libpath, l.env = h.assignments o (h.enabledTools o.tools) libpath program := by
  unfold launchTools at hrun
  simp only at hrun
  split at hrun
  · cases hrun
  · rename_i hany
    split at hrun
    · cases hrun
    · rename_i libpath _
      split at hrun
      · cases hrun
        exact ⟨rfl, by simpa using hany, rfl, libpath, rfl⟩
      · cases hrun

theorem launchProgram_run (hrun : launchProgram h o program = .run l) :
    o.debug = false ∧ (h.enabledTools o.tools).any = true ∧ program ≠ [] ∧
      l.program = program ∧
      ∃ libpath, l.env = h.assignments o (h.enabledTools o.tools) libpath program := by
  unfold launchProgram at hrun
  split at hrun
  · split at hrun <;> cases hrun
  · split at hrun
    · cases hrun
    · rename_i hprogram
      split at hrun
      · cases hrun
      · split at hrun
        · split at hrun
          · cases hrun
          · exact absurd (launchTools_run hrun).1 (Option.some_ne_none _)
        · rename_i hdebug
          obtain ⟨-, hany, hl, henv⟩ := launchTools_run hrun
          exact ⟨by simpa using hdebug, hany, hprogram, hl, henv⟩

/-- **How a run comes about**: the options are read, and what is left of the
words is the program. -/
theorem launch_run (hrun : launch h args = .run l) :
    ∃ es rest libpath, parse optstring args = ⟨es, some rest⟩ ∧
      (Options.default.after h es).debug = false ∧ l.program = dropDashes rest ∧
      l.program ≠ [] ∧ (h.enabledTools (Options.default.after h es).tools).any = true ∧
      l.env = h.assignments (.after h es .default)
        (h.enabledTools (Options.default.after h es).tools) libpath l.program := by
  unfold launch at hrun
  simp only at hrun
  split at hrun
  · cases hrun
  · split at hrun
    · cases hrun
    · split at hrun
      · cases hrun
      · split at hrun
        · cases hrun
        · cases hrun
        · rename_i o hread
          split at hrun
          · cases hrun
          · rename_i rest hrest
            obtain ⟨hdebug, hany, hprogram, hl, libpath, henv⟩ := launchProgram_run hrun
            have ho : o = Options.default.after h (parse optstring args).opts :=
              readOptions_eq _ hread
            rw [ho] at hdebug hany henv
            refine ⟨(parse optstring args).opts, rest, libpath, ?_, hdebug, hl, ?_, hany, ?_⟩
            · rw [← hrest]
            · rw [hl]
              exact hprogram
            · rw [henv, hl]

/-- The first words that are answered with a text are no options. -/
theorem parse_not_special (hparse : parse optstring args = ⟨es, some rest⟩) :
    ¬ (args.head? = some "--help".toList ∨ args.head? = some "-h".toList) ∧
      ¬ (args.head? = some "--version".toList ∨ args.head? = some "-v".toList) := by
  have hspecial : ∀ w, parse optstring (w :: args.tail) = ⟨[], none⟩ →
      args.head? ≠ some w := by
    intro w hw hhead
    cases args with
    | nil => cases hhead
    | cons x ws =>
      cases hhead
      rw [show (w :: ws).tail = ws from rfl, hparse] at hw
      cases hw
  exact ⟨not_or.mpr ⟨hspecial _ rfl, hspecial _ rfl⟩, not_or.mpr ⟨hspecial _ rfl, hspecial _ rfl⟩⟩

end Script

/-- **Clusters, glued arguments and `--` make no difference**: the script does
with a command line what it does with the options one to a word. -/
theorem launch_canonical (h : Host) (args rest : List Word) (es : List Opt) (hargs : args ≠ [])
    (hparse : parse optstring args = ⟨es, some rest⟩) :
    launch h args = launch h (render es ++ ['-', '-'] :: rest) := by
  have hplain : parse optstring (render es ++ ['-', '-'] :: rest) = ⟨es, some rest⟩ :=
    parse_canonical (by decide) hparse
  have hne : render es ++ ['-', '-'] :: rest ≠ [] := List.append_ne_nil_of_right_ne_nil _ (by simp)
  obtain ⟨hhelp, hversion⟩ := parse_not_special hparse
  obtain ⟨hhelp', hversion'⟩ := parse_not_special hplain
  rw [launch, if_neg hhelp, if_neg hversion, if_neg hargs, launch, if_neg hhelp',
    if_neg hversion', if_neg hne]
  simp only [hparse, hplain]

/-- A Linux system with everything the script looks for, and no files to expand to. -/
def Host.linux : Host where
  uname := "Linux".toList
  killList := fun _ => []
  glob := fun w => [w]
  fileExists := fun _ => true
  hasCommand := fun _ => true
  dir := "/usr/bin".toList
  tmp := "/tmp/heapusage.x".toList

/-- Two options and the argument of the second in one word. -/
theorem launch_canonical_cluster :
    launch .linux ["-nm5".toList, "prog".toList, "-x".toList] =
      launch .linux ["-n".toList, "-m".toList, "5".toList, "--".toList, "prog".toList,
        "-x".toList] :=
  launch_canonical .linux ["-nm5".toList, "prog".toList, "-x".toList]
    ["prog".toList, "-x".toList] [.flag 'n', .arg 'm' ['5']] (by decide) rfl

/-! ## §4 The variables -/

section Variables

variable {env : Environ} {name : String} {value : Word}

theorem setAll_not_mem (as : List (String × Word)) : ∀ env : Environ,
    name ∉ as.map Prod.fst → env.setAll as name = env name := by
  induction as with
  | nil => exact fun _ _ => rfl
  | cons a as ih =>
    intro env hname
    rw [List.map_cons, List.mem_cons, not_or] at hname
    exact (ih (env.set a.1 a.2) hname.2).trans (if_neg hname.1)

/-- A variable has the value it is assigned. -/
theorem setAll_mem (as : List (String × Word)) : ∀ env : Environ, (name, value) ∈ as →
    (as.map Prod.fst).Nodup → env.setAll as name = some value := by
  induction as with
  | nil => exact fun _ hmem _ => absurd hmem List.not_mem_nil
  | cons a as ih =>
    intro env hmem hnodup
    rw [List.map_cons, List.nodup_cons] at hnodup
    rcases List.mem_cons.mp hmem with rfl | hmem
    · exact (setAll_not_mem as _ hnodup.1).trans (if_pos rfl)
    · exact ih _ hmem hnodup.2

theorem assignments_names (h : Host) (o : Options) (t : Tools) (libpath : Word)
    (program : List Word) : (h.assignments o t libpath program).map Prod.fst =
      ["HU_VERSION", "HU_DOUBLEFREE", "HU_LEAK", "HU_OVERFLOW", "HU_USEAFTERFREE", "HU_FILE",
        "HU_MINSIZE", "HU_NOSYMS", "HU_QUARANTINE", "HU_SIGNO", "HU_COMMAND", "HU_LOGPID",
        "HU_REPEAT", "LD_PRELOAD", "DYLD_INSERT_LIBRARIES", "DYLD_FORCE_FLAT_NAMESPACE"] := rfl

theorem assigned (h : Host) (o : Options) (t : Tools) (libpath : Word) (program : List Word)
    (env : Environ) (hmem : (name, value) ∈ h.assignments o t libpath program) :
    env.setAll (h.assignments o t libpath program) name = some value :=
  setAll_mem _ env hmem (by rw [assignments_names]; decide)

/-- A flag is read back. -/
theorem huGetEnvBool_bit {b : Bool} (henv : env name = some (bit b)) :
    env.huGetEnvBool name = b := by
  rw [Environ.huGetEnvBool, henv]
  cases b <;> rfl

end Variables

/-- What the script makes `hu_init` set up, by the options, the tools and the program. -/
def Host.settings (h : Host) (o : Options) (p : Platform) (program : List Word)
    (environ : Environ) : Settings :=
  let words := h.toolWords o.tools
  let overflow := selected ["all", "overflow", "error"] words
  let useafterfree := selected ["all", "use-after-free", "error"] words
  let name := h.tmplog o ++ o.outfile
  let file := (p.realpath name).getD (name.take (pathMax - 1))
  { config :=
      { huDoublefree := selected ["all", "double-free", "error"] words
        huLeak := selected ["all", "leak"] words
        huOverflow := overflow
        huUseafterfree := useafterfree
        huMinsize := toSizeT (strtoll o.minsize)
        huLogRepeat := o.repeatErrors
        huPageSize := p.pageSize
        huQuarantineMaxSize :=
          if overflow || useafterfree then
            huQuarantineMaxSize p (if o.quarantine = [] then 10 else toInt (strtoll o.quarantine))
          else 0
        maxMapCount := p.maxMapCount
        logWritable := p.writable file
        objfile := p.objfile }
    huFile := file
    fileConfig :=
      .make o.logpid o.nosyms p.pid (some (String.ofList huVer))
        (some (String.ofList (joined program)))
    huLogSigno := toInt (strtoll o.signo)
    environ := environ }

/-- `hu_init` reads back what the script assigns. -/
theorem settings_assigned (h : Host) (o : Options) (libpath : Word) (program : List Word)
    (p : Platform) (env : Environ) :
    huInitSettings p
        (env.setAll (h.assignments o (h.enabledTools o.tools) libpath program)) =
      h.settings o p program
        (((env.setAll (h.assignments o (h.enabledTools o.tools) libpath program)).unset
          "DYLD_INSERT_LIBRARIES").unset "LD_PRELOAD") := by
  generalize hE : env.setAll (h.assignments o (h.enabledTools o.tools) libpath program) = E
  have hget : ∀ {name : String} {value : Word},
      (name, value) ∈ h.assignments o (h.enabledTools o.tools) libpath program →
      E name = some value := by
    intro name value hmem
    rw [← hE]
    exact assigned h o _ libpath program env hmem
  rw [enabledTools_eq] at hget
  have hdoublefree : E.huGetEnvBool "HU_DOUBLEFREE" =
      selected ["all", "double-free", "error"] (h.toolWords o.tools) :=
    huGetEnvBool_bit (hget (by simp [Host.assignments]))
  have hleak : E.huGetEnvBool "HU_LEAK" = selected ["all", "leak"] (h.toolWords o.tools) :=
    huGetEnvBool_bit (hget (by simp [Host.assignments]))
  have hoverflow : E.huGetEnvBool "HU_OVERFLOW" =
      selected ["all", "overflow", "error"] (h.toolWords o.tools) :=
    huGetEnvBool_bit (hget (by simp [Host.assignments]))
  have huseafterfree : E.huGetEnvBool "HU_USEAFTERFREE" =
      selected ["all", "use-after-free", "error"] (h.toolWords o.tools) :=
    huGetEnvBool_bit (hget (by simp [Host.assignments]))
  have hnosyms : E.huGetEnvBool "HU_NOSYMS" = o.nosyms :=
    huGetEnvBool_bit (hget (by simp [Host.assignments]))
  have hlogpid : E.huGetEnvBool "HU_LOGPID" = o.logpid :=
    huGetEnvBool_bit (hget (by simp [Host.assignments]))
  have hrepeat : E.huGetEnvBool "HU_REPEAT" = o.repeatErrors :=
    huGetEnvBool_bit (hget (by simp [Host.assignments]))
  have hfile : E "HU_FILE" = some (h.tmplog o ++ o.outfile) :=
    hget (by simp [Host.assignments])
  have hminsize : E "HU_MINSIZE" = some o.minsize := hget (by simp [Host.assignments])
  have hquarantine : E "HU_QUARANTINE" = some o.quarantine := hget (by simp [Host.assignments])
  have hsigno : E "HU_SIGNO" = some o.signo := hget (by simp [Host.assignments])
  have hcommand : E "HU_COMMAND" = some (joined program) := hget (by simp [Host.assignments])
  have hversion : E "HU_VERSION" = some huVer := hget (by simp [Host.assignments])
  have hpct : huQuarantinePct E =
      if o.quarantine = [] then 10 else toInt (strtoll o.quarantine) := by
    rw [huQuarantinePct, hquarantine]
    cases o.quarantine <;> rfl
  have hlog : huFile p E = (p.realpath (h.tmplog o ++ o.outfile)).getD
      ((h.tmplog o ++ o.outfile).take (pathMax - 1)) := by
    rw [huFile, hfile]
    cases hreal : p.realpath (h.tmplog o ++ o.outfile) <;> simp [hreal]
  simp only [huInitSettings, Host.settings, Environ.number, hdoublefree, hleak, hoverflow,
    huseafterfree, hnosyms, hlogpid, hrepeat, hminsize, hsigno, hcommand, hversion, hpct, hlog,
    Option.map_some]

/-- **From the command line to the configuration**: when a program is run, `-d` is
not among the options, `hu_init` sets up what they say, at least one tool is on,
the program's words are the last ones of the line, and the environment the script
was started in has no part in the settings. -/
theorem launch_configures (h : Host) (args : List Word) (l : Launch)
    (hrun : launch h args = .run l) :
    l.program <:+ args ∧ ∃ es rest, parse optstring args = ⟨es, some rest⟩ ∧
      (Options.default.after h es).debug = false ∧
      ∀ (p : Platform) (env : Environ),
        huInitSettings p (env.setAll l.env) =
            h.settings (.after h es .default) p l.program
              (((env.setAll l.env).unset "DYLD_INSERT_LIBRARIES").unset "LD_PRELOAD") ∧
          ((huInitSettings p (env.setAll l.env)).config.huDoublefree ||
            (huInitSettings p (env.setAll l.env)).config.huLeak ||
            (huInitSettings p (env.setAll l.env)).config.huEnableHumalloc) = true := by
  obtain ⟨es, rest, libpath, hparse, hdebug, hprogram, hne, hany, henv⟩ := launch_run hrun
  have hdrop : dropDashes rest <:+ rest := by
    unfold dropDashes
    split
    · exact List.suffix_cons _ _
    · exact List.suffix_refl _
  have hrest : rest <:+ args := parse_suffix args rest (by rw [hparse])
  refine ⟨hprogram ▸ hdrop.trans hrest, es, rest, hparse, hdebug, fun p env => ?_⟩
  have hsettings := settings_assigned h (.after h es .default) libpath l.program p env
  rw [← henv] at hsettings
  refine ⟨hsettings, ?_⟩
  rw [enabledTools_eq, Tools.any, Bool.or_assoc] at hany
  rw [hsettings]
  exact hany

/-- One tool, by its name. -/
theorem launch_configures_leak : ∃ l,
    launch .linux ["-t".toList, "leak".toList, "./ex001".toList] = .run l ∧
      l.program <:+ ["-t".toList, "leak".toList, "./ex001".toList] ∧
      (huInitSettings .small (Environ.empty.setAll l.env)).config =
        (Host.linux.settings { Options.default with tools := "leak".toList } .small
          ["./ex001".toList] (fun _ => none)).config := by
  obtain ⟨hprogram, es, rest, hparse, -, hsettings⟩ :=
    launch_configures .linux ["-t".toList, "leak".toList, "./ex001".toList]
      ⟨Host.linux.assignments { Options.default with tools := "leak".toList }
        ⟨false, true, false, false⟩ "/usr/bin/../lib/libheapusage.so".toList ["./ex001".toList],
        ["./ex001".toList]⟩ (by decide +kernel)
  cases hparse
  exact ⟨_, by decide +kernel, hprogram, by rw [(hsettings .small .empty).1]; rfl⟩

end Heapusage
