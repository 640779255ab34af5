import Scriptlet.Cli.Flags
import Scriptlet.Files.Sources
import Scriptlet.Run.Engine
import Scriptlet.Server.Stream
import Scriptlet.Value.Output

/-!
# Invocations

The arguments of the program say what to do: a command, its flags, and what to do it to. Reading
them gives an **invocation**, in which everything is decided that can be decided without looking
at a file.
-/

namespace Scriptlet

/-! ### What can go wrong -/

/-- Why a command fails. -/
inductive CliError where
  /-- There is no such command. -/
  | invalidCommand
  /-- The flags are wrong. -/
  | flags (e : FlagError)
  /-- There is no such output format. -/
  | unknownFormat (name : Bytes)
  /-- A command was not told which script to work on. -/
  | noScript (command : String)
  /-- Formatting was not told what to work on. -/
  | noTarget
  /-- Formatting was told both to write and to check. -/
  | writeAndCheck
  /-- A script cannot be read. -/
  | unreadable (path : Path) (problem : FileTree.Problem)
  /-- A script is not well formed. -/
  | invalid (e : SyntaxError)
  /-- A run did not come to its end. -/
  | failed (e : ScriptError)
  /-- A script cannot be analysed. -/
  | analysis (reason : CliError)
  /-- The analysis found so many mistakes. -/
  | issues (count : Nat)
  /-- A target is wrong. -/
  | badTarget (target : Bytes) (problem : FileTree.TargetProblem)
  /-- So many files are not formatted. -/
  | stale (count : Nat)
  /-- The editor's messages cannot be read. -/
  | stream (e : StreamError)

namespace CliError

/-- What the program did when it found a problem with a script: it had opened a directory before
it noticed. -/
def attempt : FileTree.Problem → Bytes
  | .isDirectory => Bytes.ofString "read "
  | _ => Bytes.ofString "open "

/-- The wording of what is wrong with a target. -/
def targetMessage (target : Bytes) : FileTree.TargetProblem → Bytes
  | .unreachable p =>
    Bytes.ofString "lstat " ++ target ++ Bytes.ofString ": " ++ p.message
  | .notScript => Bytes.ofString "not a " ++ scriptEnding ++ Bytes.ofString " file"

/-- **The wording of an error.** -/
def message : CliError → Bytes
  | invalidCommand => Bytes.ofString "invalid command"
  | flags e => e.message
  | unknownFormat name => Bytes.ofString "tiny run: unknown format " ++ Bytes.quoted name
  | noScript command =>
    Bytes.ofString "tiny " ++ Bytes.ofString command ++ Bytes.ofString ": script path required"
  | noTarget => Bytes.ofString "tiny fmt: path required"
  | writeAndCheck => Bytes.ofString "tiny fmt: -w and -check cannot be combined"
  | unreadable path problem =>
    Bytes.ofString "read script: " ++ attempt problem ++ path.text ++ Bytes.ofString ": " ++
      problem.message
  | invalid e => Bytes.ofString "parse failed: " ++ e.text
  | failed e => Bytes.ofString "execution failed: " ++ e.text
  | analysis reason => Bytes.ofString "analysis failed: " ++ reason.message
  | issues count =>
    Bytes.ofString "analysis found " ++ Bytes.ofNat count ++ Bytes.ofString " issue(s)"
  | badTarget target problem =>
    Bytes.ofString "tiny fmt: " ++ target ++ Bytes.ofString ": " ++ targetMessage target problem
  | stale count =>
    Bytes.ofString "tiny fmt: " ++ Bytes.ofNat count ++ Bytes.ofString " file(s) need formatting"
  | stream e => e.message

/-- The words for the kinds of script error that an error goes back to. -/
def words : CliError → List String
  | invalid e => (ScriptError.invalid e).words
  | failed e => e.words
  | analysis reason => reason.words
  | _ => []

end CliError

/-! ### Commands -/

/-- What a run of a script can be told. -/
structure RunOptions where
  /-- The name of the format of the bindings. -/
  format : Bytes := Bytes.ofString "text"
  /-- Whether the run is logged. -/
  verbose : Bool := false
  /-- How many steps are allowed. -/
  steps : Int := 0
  /-- How many calls may be open at once. -/
  recursion : Int := 0
  /-- Whether function bodies know no functions. -/
  isolated : Bool := false

/-- The flags of a run. -/
def RunOptions.flags : List (String × Flag RunOptions) :=
  [("format", .text fun s o => { o with format := s }),
   ("v", .switch fun b o => { o with verbose := b }),
   ("steps", .number fun n o => { o with steps := n }),
   ("recursion", .number fun n o => { o with recursion := n }),
   ("isolated", .switch fun b o => { o with isolated := b })]

/-- The limits that were asked for. -/
def RunOptions.limits (o : RunOptions) : Limits :=
  .ofRequest o.steps o.recursion o.isolated

/-- What formatting can be told. -/
structure FormatOptions where
  /-- Whether files are written. -/
  write : Bool := false
  /-- Whether files are only checked. -/
  check : Bool := false

/-- The flags of formatting. -/
def FormatOptions.flags : List (String × Flag FormatOptions) :=
  [("w", .switch fun b o => { o with write := b }),
   ("check", .switch fun b o => { o with check := b })]

/-- What formatting does with a file. -/
inductive FormatMode where
  /-- Shows it formatted. -/
  | print
  /-- Writes it back when that changes it. -/
  | write
  /-- Lists it when formatting would change it. -/
  | check
  deriving DecidableEq, Repr

/-- **What the program is asked to do.** -/
inductive Invocation where
  /-- Run a script and print its variables in a format. -/
  | run (options : RunOptions) (format : BindingsFormat) (script : Bytes)
  /-- See whether a script is well formed. -/
  | check (script : Bytes)
  /-- Format the scripts of targets. -/
  | format (mode : FormatMode) (targets : List Bytes)
  /-- Report likely mistakes in a script. -/
  | analyze (script : Bytes)
  /-- Start a console. -/
  | console
  /-- Serve an editor. -/
  | serve
  /-- Tell how to use the program. -/
  | help

namespace Invocation

/-- Flags, with their errors as errors of the program. -/
def readFlags {σ : Type} (flags : List (String × Flag σ)) (options : σ) (args : List Bytes) :
    Except CliError (σ × List Bytes) :=
  match Flag.readAll flags options args with
  | .ok r => .ok r
  | .error e => .error (.flags e)

/-- The script that a command is for: the first of its arguments. -/
def script (command : String) : List Bytes → Except CliError Bytes
  | [] => .error (.noScript command)
  | path :: _ => .ok path

/-- The script of a command that has no flags. -/
def readScript (command : String) (args : List Bytes) : Except CliError Bytes := do
  let (_, rest) ← readFlags ([] : List (String × Flag Unit)) () args
  script command rest

/-- Reads what a run is asked for. -/
def readRun (args : List Bytes) : Except CliError Invocation := do
  let (options, rest) ← readFlags RunOptions.flags {} args
  match BindingsFormat.ofName? options.format with
  | none => .error (.unknownFormat options.format)
  | some f => return run options f (← script "run" rest)

/-- Reads what formatting is asked for. -/
def readFormat (args : List Bytes) : Except CliError Invocation := do
  let (options, targets) ← readFlags FormatOptions.flags {} args
  if targets.isEmpty then .error .noTarget
  else match options.write, options.check with
    | true, true => .error .writeAndCheck
    | true, false => return format .write targets
    | false, true => return format .check targets
    | false, false => return format .print targets

/-- **Reads the arguments of the program.** -/
def read : List Bytes → Except CliError Invocation
  | [] => .error .invalidCommand
  | command :: args =>
    let is (name : String) : Bool := command == Bytes.ofString name
    if is "run" then readRun args
    else if is "check" then check <$> readScript "check" args
    else if is "fmt" then readFormat args
    else if is "analyze" then analyze <$> readScript "analyze" args
    else if is "repl" then .ok console
    else if is "lsp" then .ok serve
    else if is "help" || is "-h" || is "--help" then .ok help
    else .error .invalidCommand

/-- The files that an invocation looks at, as the user wrote them. -/
def targets : Invocation → List Bytes
  | run _ _ script | check script | analyze script => [script]
  | format _ targets => targets
  | console | serve | help => []

end Invocation

end Scriptlet
