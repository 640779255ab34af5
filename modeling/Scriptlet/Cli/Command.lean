import Scriptlet.Cli.Invocation
import Scriptlet.Cli.Log
import Scriptlet.Layout
import Scriptlet.Lint

/-!
# Commands

Carrying out an invocation is a function of the **host**: the working directory, the files, and
the input. What it gives is what the program prints on its two outputs, the files it writes, and
the error it ends with, if any.
-/

namespace Scriptlet

/-- What the program finds when it starts. -/
structure Host where
  /-- The working directory. -/
  working : Path
  /-- All files. -/
  tree : FileTree
  /-- The standard input. -/
  input : Bytes

/-- What the program leaves behind. -/
structure Effects where
  /-- What it prints. -/
  output : Bytes := []
  /-- What it prints apart from its output. -/
  notes : Bytes := []
  /-- The files it writes. -/
  written : List SourceFile := []
  /-- The error it ends with. -/
  error : Option CliError := none

namespace Effects

/-- Nothing but an error. -/
def failure (e : CliError) : Effects :=
  { error := some e }

/-- Nothing but output. -/
def print (s : Bytes) : Effects :=
  { output := s }

end Effects

/-- How to use the program. -/
def usage : Bytes :=
  Bytes.ofString (String.join [
    "Usage: tiny <command> [flags] <args>\n",
    "Commands:\n",
    "  run [flags] <script>     execute a script and print its variables\n",
    "  check <script>           parse a script without running it\n",
    "  fmt [-w] [-check] <path> normalise .tiny source files\n",
    "  analyze <script>         report likely mistakes\n",
    "  repl                     start an interactive session\n",
    "  lsp                      serve diagnostics over the language server protocol\n",
    "Run flags:\n",
    "  -format string\n",
    "    text, json or yaml (default \"text\")\n",
    "  -v\n",
    "    log interpreter activity to stderr\n",
    "  -steps int\n",
    "    maximum evaluation steps (0 = unlimited)\n",
    "  -recursion int\n",
    "    maximum call depth (default 1000)\n",
    "  -isolated\n",
    "    start every call with an empty function table\n"])

namespace Host

/-! ### Scripts -/

/-- The script at a path: the file, without the line feed it ends in, has to be well formed. -/
def loadAt (h : Host) (path : Path) : Except CliError Script :=
  match h.tree.read path with
  | .error problem => .error (.unreadable path problem)
  | .ok content =>
    match parse (Bytes.dropFinalNewline content) with
    | .error e => .error (.invalid e)
    | .ok s => .ok s

/-- The script that a user names. -/
def load (h : Host) (script : Bytes) : Except CliError Script :=
  h.loadAt (Path.resolve h.working script)

/-! ### Commands -/

/-- Runs a script and prints its variables. -/
def run (h : Host) (options : RunOptions) (format : BindingsFormat) (script : Bytes) : Effects :=
  match h.load script with
  | .error e => .failure e
  | .ok s =>
    let r := runScript ⟨options.limits, none⟩ .empty s
    let notes :=
      if options.verbose then
        Log.configured options.limits ++ (r.records s).flatMap (Log.ofRecord s.source)
      else []
    match r.result with
    | .ok w => { output := w.bindings.write format, notes }
    | .error stop => { notes, error := some (.failed (.ofStop s.source stop)) }

/-- Says whether a script is well formed. -/
def check (h : Host) (script : Bytes) : Effects :=
  match h.load script with
  | .error e => .failure e
  | .ok _ => {}

/-- A warning in one line. -/
def warningLine (path : Path) (w : Warning) : Bytes :=
  path.text ++ Bytes.ofString ":" ++ Bytes.ofNat w.position.line ++ Bytes.ofString ":" ++
    Bytes.ofNat w.position.column ++ Bytes.ofString ": " ++ w.finding.message ++
    Bytes.ofString " (" ++ w.function ++ Bytes.ofString ")\n"

/-- Reports likely mistakes in a script. -/
def analyze (h : Host) (script : Bytes) : Effects :=
  let path := Path.resolve h.working script
  match h.loadAt path with
  | .error e => .failure (.analysis e)
  | .ok s =>
    match s.warnings with
    | [] => .print (Bytes.ofString "No issues found\n")
    | ws => { output := ws.flatMap (warningLine path), error := some (.issues ws.length) }

/-- A file with its content formatted. -/
def formatted (f : SourceFile) : SourceFile :=
  { f with content := Scriptlet.format f.content }

/-- The files that formatting changes. -/
def staleFiles (fs : List SourceFile) : List SourceFile :=
  fs.filter fun f => formatted f != f

/-- What formatting does with files. -/
def formatFiles (fs : List SourceFile) : FormatMode → Effects
  | .print => .print (fs.flatMap fun f => (formatted f).content)
  | .write => { written := (staleFiles fs).map formatted }
  | .check =>
    match staleFiles fs with
    | [] => {}
    | stale =>
      { output := stale.flatMap fun f => f.path.text ++ [Bytes.newline]
        error := some (.stale stale.length) }

/-- Formats the scripts of targets. -/
def format (h : Host) (mode : FormatMode) (targets : List Bytes) : Effects :=
  match h.tree.scripts h.working targets with
  | .error (target, problem) => .failure (.badTarget target problem)
  | .ok fs => formatFiles fs mode

/-- Serves an editor until the input ends. -/
def serve (h : Host) : Effects :=
  let s := Stream.serve .empty h.input
  { output := Stream.output s.sent, error := s.error.map .stream }

/-- Carries out an invocation. A console has no part in this: it needs someone at the keys. -/
def perform (h : Host) : Invocation → Effects
  | .run options format script => h.run options format script
  | .check script => h.check script
  | .format mode targets => h.format mode targets
  | .analyze script => h.analyze script
  | .serve => h.serve
  | .help => { notes := usage }
  | .console => {}

/-- **Carries out what the arguments ask for.** Whoever asks for a command that does not exist is
told how to use the program. -/
def execute (h : Host) (args : List Bytes) : Effects :=
  match Invocation.read args with
  | .ok i => h.perform i
  | .error .invalidCommand => { notes := usage, error := some .invalidCommand }
  | .error e => .failure e

/-- The host after the program has run. -/
def after (h : Host) (e : Effects) : Host :=
  { h with tree := e.written.foldl (fun t f => t.put f.path (.file f.content)) h.tree }

end Host

end Scriptlet
