import Scriptlet.Cli.Command
import Scriptlet.Console.Basic

/-!
# The program

The program itself only moves bytes: it takes a picture of the files that its arguments name,
carries the arguments out on that picture, prints what is to be printed and writes what is to be
written. An editor and a console are served message by message and line by line.
-/

namespace Scriptlet

namespace Program

/-! ### Bytes in and out -/

/-- Writes bytes at once. -/
def write (stream : IO.FS.Stream) (s : Bytes) : IO Unit := do
  unless s.isEmpty do
    stream.write ⟨s.toArray⟩
    stream.flush

/-- A byte string as the name of a file. -/
def name? (s : Bytes) : Option String :=
  String.fromUTF8? ⟨s.toArray⟩

/-! ### Files -/

/-- The files at a path; in a directory only what a search can find. -/
partial def loadTree (path : String) : IO (Option FileTree) := do
  try
    let p ← IO.FS.realPath path
    if ← p.isDir then
      let mut entries := #[]
      for e in ← p.readDir do
        let name := Bytes.ofString e.fileName
        if isScriptName name || !isHidden name then
          if let some t ← loadTree (path ++ "/" ++ e.fileName) then
            entries := entries.push (name, t)
      return some (.directory entries.toList)
    else
      return some (.file (← IO.FS.readBinFile p).toList)
  catch _ => return none

/-- What stands at a path, without what is in it. -/
def peek (path : String) : IO (Option FileTree) := do
  try
    let p ← IO.FS.realPath path
    return some (if ← p.isDir then .directory [] else .file [])
  catch _ => return none

/-- A picture of the files that targets lead to. -/
def snapshot (working : Path) (targets : List Bytes) : IO FileTree := do
  let mut tree := FileTree.put (.directory []) working (.directory [])
  for target in targets do
    let mut place := Path.start working target
    for part in Bytes.parts Bytes.slash target do
      place := place.step part
      if (tree.get? place).isNone then
        if let some name := name? place.text then
          if let some t ← peek name then
            tree := tree.put place t
    if let some name := name? place.text then
      if let some t ← loadTree name then
        tree := tree.put place t
  return tree

/-! ### Editors and consoles -/

/-- Serves an editor: handles every frame as soon as it is complete. -/
partial def serve (input output : IO.FS.Stream) (docs : Documents) (buffer : Bytes) :
    IO (Option StreamError) := do
  let more (e : Option StreamError) : IO (Option StreamError) := do
    let s ← input.read 4096
    if s.isEmpty then return e
    serve input output docs (buffer ++ s.toList)
  match Stream.frame buffer with
  | .got payload rest =>
    let h := Stream.handle docs payload
    write output (Stream.output h.sent)
    if h.exits then return none
    serve input output h.documents rest
  | .ended => more none
  | .failed .cutShort => more (some .cutShort)
  | .failed e => return some e

/-- Reads entries line by line, and shows what comes of each. -/
partial def converse (input output : IO.FS.Stream) (c : Console) : IO Unit := do
  write output (Bytes.ofString "tiny> ")
  let line ← input.getLine
  if line.isEmpty then return ()
  let next := (c.setLine line.toList).submit
  for s in next.transcript.drop c.transcript.length do
    write output (s.result.text ++ [Bytes.newline])
  unless next.quitting do
    converse input output next

/-! ### The command line -/

/-- Carries out an invocation, except where someone has to be talked to. -/
def perform (args : List Bytes) : IO (Option CliError) := do
  let input ← IO.getStdin
  let output ← IO.getStdout
  match Invocation.read args with
  | .ok .serve => return (← serve input output .empty []).map .stream
  | .ok .console =>
    converse input output .new
    return none
  | invocation =>
    let working := Path.resolve [] (Bytes.ofString (← IO.currentDir).toString)
    let targets := match invocation with
      | .ok i => i.targets
      | .error _ => []
    let host : Host := ⟨working, ← snapshot working targets, []⟩
    let effects := host.execute args
    write output effects.output
    write (← IO.getStderr) effects.notes
    for f in effects.written do
      if let some name := name? f.path.text then
        IO.FS.writeBinFile name ⟨f.content.toArray⟩
    return effects.error

end Program

end Scriptlet

open Scriptlet in
/-- Carries out the arguments; an error is told, and makes the program fail. -/
def main (args : List String) : IO UInt32 := do
  match ← Program.perform (args.map Bytes.ofString) with
  | none => return 0
  | some e =>
    Program.write (← IO.getStderr) (e.message ++ [Bytes.newline])
    return 1
