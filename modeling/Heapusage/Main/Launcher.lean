/-
Heapusage.Main.Launcher — the shell script `heapusage`.

The command line, the tools, the library and the variables the program is
started with. What the script asks the system for is a `Host`; `launch` gives
the way the script ends: a message and an exit status, the run of a program, or
that of a debugger with the file of commands the script has written for it.
The script checks in this order, so the first check that fails decides.

Code re-signing on macOS is left out: `launch` says that it is what comes.

§1 Words. §2 Options. §3 Tools. §4 The script.
-/
import Heapusage.Main.Environment

namespace Heapusage

open Getopts

/-! ## §1 Words -/

/-- What the script finds out about the system it runs on. -/
structure Host where
  uname : Word
  /-- the output of `kill -l` with these words, less line breaks at the end -/
  killList : List Word → Word
  /-- pathname expansion of a word -/
  glob : Word → List Word
  /-- `[[ -e … ]]` -/
  fileExists : Word → Bool
  /-- `command -v … &> /dev/null` -/
  hasCommand : Word → Bool
  /-- the directory of the script -/
  dir : Word
  /-- the directory `mktemp -d` makes -/
  tmp : Word

/-- The characters of `IFS`. -/
def isIfs (c : Char) : Bool := c == ' ' || c == '\t' || c == '\n'

/-- Word splitting: what stands between characters of `IFS`. -/
def splitWords (cs : Word) : List Word := (cs.splitOnP isIfs).filter (· ≠ [])

/-- The words an unquoted expansion becomes. -/
def Host.unquoted (h : Host) (cs : Word) : List Word := (splitWords cs).flatMap h.glob

/-- `${*}` -/
def joined (ws : List Word) : Word := [' '].intercalate ws

/-! ## §2 Options -/

/-- The variables the options set. -/
structure Options where
  codesignapp : Word
  debug : Bool
  logpid : Bool
  minsize : Word
  nosyms : Bool
  outfile : Word
  quarantine : Word
  repeatErrors : Bool
  signo : Word
  tools : Word
  deriving DecidableEq

/-- Before any option. -/
def Options.default : Options where
  codesignapp := []
  debug := false
  logpid := false
  minsize := ['0']
  nosyms := false
  outfile := []
  quarantine := []
  repeatErrors := false
  signo := []
  tools := "error".toList

/-- Why the script ends before it runs anything. -/
inductive Refusal where
  | usage
  | unknownSignal (name : Word)
  | codesign (app : Word)
  | codesignUnsupported
  | unsupportedOS
  | noDebugger
  | noTool
  | noLibrary
  deriving DecidableEq

/-- `^[0-9]+$` -/
def isNumber (cs : Word) : Bool := cs != [] && cs.all Char.isDigit

/-- The signal option: a number stays as it is, a name is looked up. -/
def Host.signal (h : Host) (value : Word) : Except Refusal Word :=
  if isNumber value then .ok value
  else
    let signo := h.killList (h.unquoted value)
    if signo = [] then .error (.unknownSignal value) else .ok signo

/-- One turn of the loop `while getopts …`. -/
def Options.apply (h : Host) (o : Options) : Opt → Except Refusal Options
  | .flag '?' => .error .usage
  | .arg 'c' value => .ok { o with codesignapp := value }
  | .flag 'd' => .ok { o with debug := true }
  | .flag 'i' => .ok { o with logpid := true }
  | .arg 'm' value => .ok { o with minsize := value }
  | .flag 'n' => .ok { o with nosyms := true }
  | .arg 'o' value => .ok { o with outfile := value }
  | .arg 'q' value => .ok { o with quarantine := value }
  | .flag 'r' => .ok { o with repeatErrors := true }
  | .arg 's' value =>
      match h.signal value with
      | .ok signo => .ok { o with signo := signo }
      | .error e => .error e
  | .arg 't' value => .ok { o with tools := value }
  -- `f` is in the option string and has no branch
  | _ => .ok o

/-- The option string. -/
def optstring : Word := "?c:difm:no:q:rs:t:".toList

/-- The options one after the other. -/
def readOptions (h : Host) : List Opt → Options → Except Refusal Options
  | [], o => .ok o
  | e :: es, o =>
      match o.apply h e with
      | .ok o => readOptions h es o
      | .error r => .error r

/-! ## §3 Tools -/

/-- The variables the loop over the tools sets. -/
structure Tools where
  doublefree : Bool
  leak : Bool
  overflow : Bool
  useafterfree : Bool
  deriving DecidableEq

/-- One turn of the loop. A tool that is not supported is ignored. -/
def Tools.enable (t : Tools) (tool : Word) : Tools :=
  if tool = "all".toList then ⟨true, true, true, true⟩
  else if tool = "double-free".toList then { t with doublefree := true }
  else if tool = "error".toList then
    { t with doublefree := true, overflow := true, useafterfree := true }
  else if tool = "leak".toList then { t with leak := true }
  else if tool = "overflow".toList then { t with overflow := true }
  else if tool = "use-after-free".toList then { t with useafterfree := true }
  else t

/-- `${TOOLS//,/ }`, unquoted -/
def Host.toolWords (h : Host) (tools : Word) : List Word :=
  h.unquoted (tools.map fun c => if c = ',' then ' ' else c)

/-- The loop over the tools. -/
def Host.enabledTools (h : Host) (tools : Word) : Tools :=
  (h.toolWords tools).foldl Tools.enable ⟨false, false, false, false⟩

/-- A tool is selected. -/
def Tools.any (t : Tools) : Bool := t.doublefree || t.leak || t.overflow || t.useafterfree

/-! ## §4 The script -/

/-- `HU_VER` -/
def huVer : Word := "2.35".toList

inductive Debugger where
  | gdb
  | lldb
  deriving DecidableEq

/-- A program that is run: the variables it gets, and its words. -/
structure Launch where
  env : List (String × Word)
  program : List Word
  deriving DecidableEq

/-- A debugger that is run: the lines of the file it takes its commands from, and
its words. -/
structure Debug where
  cmdFile : Word
  commands : List Word
  words : List Word
  deriving DecidableEq

/-- How the script ends. -/
inductive Outcome where
  | usage (status : Nat)
  | version
  | refused (r : Refusal)
  | run (l : Launch)
  | debug (d : Debug)
  deriving DecidableEq

/-- A flag as `0` or `1`. -/
def bit (b : Bool) : Word := if b then ['1'] else ['0']

/-- The name of the library, by the name of the system. -/
def Host.libname (h : Host) : Option Word :=
  if h.uname = "Darwin".toList then some "libheapusage.dylib".toList
  else if h.uname.take 5 = "Linux".toList then some "libheapusage.so".toList
  else none

/-- The first of the supported paths at which there is a library. -/
def Host.libpath (h : Host) (libname : Word) : Option Word :=
  [h.dir ++ "/../lib/".toList ++ libname, h.dir ++ "/.libs/".toList ++ libname,
    h.dir ++ "/".toList ++ libname].find? h.fileExists

/-- The debugger; each system has one it prefers. -/
def Host.debugger (h : Host) : Option Debugger :=
  let gdb := h.hasCommand "gdb".toList
  let lldb := h.hasCommand "lldb".toList
  if h.uname = "Darwin".toList then
    if lldb then some .lldb else if gdb then some .gdb else none
  else if gdb then some .gdb
  else if lldb then some .lldb
  else none

/-- `TMPLOG` -/
def Host.tmplog (h : Host) (o : Options) : Word :=
  if o.outfile = [] then h.tmp ++ "/heapusage.log".toList else []

/-- The assignments in front of the program. -/
def Host.assignments (h : Host) (o : Options) (t : Tools) (libpath : Word)
    (program : List Word) : List (String × Word) :=
  [("HU_VERSION", huVer),
    ("HU_DOUBLEFREE", bit t.doublefree),
    ("HU_LEAK", bit t.leak),
    ("HU_OVERFLOW", bit t.overflow),
    ("HU_USEAFTERFREE", bit t.useafterfree),
    ("HU_FILE", h.tmplog o ++ o.outfile),
    ("HU_MINSIZE", o.minsize),
    ("HU_NOSYMS", bit o.nosyms),
    ("HU_QUARANTINE", o.quarantine),
    ("HU_SIGNO", o.signo),
    ("HU_COMMAND", joined program),
    ("HU_LOGPID", bit o.logpid),
    ("HU_REPEAT", bit o.repeatErrors),
    ("LD_PRELOAD", libpath),
    ("DYLD_INSERT_LIBRARIES", libpath),
    ("DYLD_FORCE_FLAT_NAMESPACE", ['1'])]

/-- The environment of the program. -/
def Environ.setAll (env : Environ) (assignments : List (String × Word)) : Environ :=
  assignments.foldl (fun env a => env.set a.1 a.2) env

/-- The run of a debugger. `lldb` gets the words behind the program in one line, where
it takes them apart again by itself. -/
def Host.debug (h : Host) (env : List (String × Word)) (program : List Word) :
    Debugger → Debug
  | .gdb =>
      let gdbcmd := h.tmp ++ "/gdb.cmd".toList
      { cmdFile := gdbcmd
        commands :=
          env.map (fun a => "set env ".toList ++ a.1.toList ++ '=' :: a.2) ++
            (if h.uname = "Darwin".toList then ["break malloc_error_break".toList] else []) ++
            ["run".toList]
        words := ["gdb".toList, "-x".toList, gdbcmd, "--args".toList] ++ program }
  | .lldb =>
      let lldbcmd := h.tmp ++ "/lldb.cmd".toList
      { cmdFile := lldbcmd
        commands :=
          env.map (fun a => "env ".toList ++ a.1.toList ++ '=' ::
            (if a.1 = "DYLD_FORCE_FLAT_NAMESPACE" then a.2 else '"' :: a.2 ++ ['"'])) ++
            ["breakpoint set -n malloc_error_break".toList,
              "run ".toList ++ joined program.tail]
        words := ["lldb".toList, program.headD [], "-s".toList, lldbcmd] }

/-- From the tools to the program. -/
def launchTools (h : Host) (o : Options) (debugger : Option Debugger) (libname : Word)
    (program : List Word) : Outcome :=
  let tools := h.enabledTools o.tools
  if !tools.any then .refused .noTool
  else
    match h.libpath libname with
    | none => .refused .noLibrary
    | some libpath =>
        let env := h.assignments o tools libpath program
        match debugger with
        | none => .run ⟨env, program⟩
        | some debugger => .debug (h.debug env program debugger)

/-- From the words behind the options. -/
def launchProgram (h : Host) (o : Options) (program : List Word) : Outcome :=
  if o.codesignapp ≠ [] then
    if h.uname = "Darwin".toList then .refused (.codesign o.codesignapp)
    else .refused .codesignUnsupported
  else if program = [] then .usage 1
  else
    match h.libname with
    | none => .refused .unsupportedOS
    | some libname =>
        if o.debug then
          match h.debugger with
          | none => .refused .noDebugger
          | some debugger => launchTools h o (some debugger) libname program
        else launchTools h o none libname program

/-- `[[ "$1" = "--" ]] && shift` -/
def dropDashes : List Word → List Word
  | ['-', '-'] :: ws => ws
  | ws => ws

/-- The script. -/
def launch (h : Host) (args : List Word) : Outcome :=
  if args.head? = some "--help".toList ∨ args.head? = some "-h".toList then .usage 0
  else if args.head? = some "--version".toList ∨ args.head? = some "-v".toList then .version
  else if args = [] then .usage 1
  else
    let parsed := parse optstring args
    match readOptions h parsed.opts .default with
    | .error .usage => .usage 1
    | .error r => .refused r
    | .ok o =>
        match parsed.rest with
        | none => .usage 1
        | some rest => launchProgram h o (dropDashes rest)

end Heapusage
