import Scriptlet.Files.Tree
import Scriptlet.Table

/-!
# The scripts in a tree

Commands that work on many scripts are given **targets**: scripts, or directories with scripts
somewhere in them. A file counts as a script by the ending of its name. Hidden directories are
passed over, unless one is itself a target.

However targets overlap, each script is found once, and scripts come in the order of their paths
in writing.
-/

namespace Scriptlet

/-- The ending of the names of scripts. -/
def scriptEnding : Bytes := Bytes.ofString ".tiny"

/-- Whether a name is that of a script. -/
def isScriptName (name : Bytes) : Bool :=
  Bytes.endsWith name scriptEnding

/-- Whether a name is hidden. -/
def isHidden (name : Bytes) : Bool :=
  name.head? == some Bytes.dot

/-- A file and what is in it. -/
structure SourceFile where
  /-- Where the file is. -/
  path : Path
  /-- What it holds. -/
  content : Bytes
  deriving DecidableEq, Repr

namespace FileTree

/-- Whether an entry of a directory that is searched is looked at: a file when it is a script, a
directory when it is not hidden. -/
def isSearched (name : Bytes) : FileTree → Bool
  | file _ => isScriptName name
  | directory _ => !isHidden name

mutual

/-- The scripts in a tree that stands at a path; a file is taken as it is. -/
def sources (place : Path) : FileTree → List SourceFile
  | file content => [⟨place, content⟩]
  | directory es => sourcesAmong place es

/-- The scripts in the entries of the directory at a path. -/
def sourcesAmong (place : Path) : List (Bytes × FileTree) → List SourceFile
  | [] => []
  | (name, t) :: es =>
    (if isSearched name t then sources (place ++ [name]) t else []) ++ sourcesAmong place es

end

/-! ### Targets -/

/-- What can be wrong with a target. -/
inductive TargetProblem where
  /-- It leads nowhere. -/
  | unreachable (p : Problem)
  /-- It is a file, and not a script. -/
  | notScript
  deriving DecidableEq, Repr

/-- The scripts of one target. -/
def targetSources (t : FileTree) (working : Path) (target : Bytes) :
    Except TargetProblem (List SourceFile) :=
  match t.locate working target with
  | .error p => .error (.unreachable p)
  | .ok (p, found) =>
    match found with
    | file _ => if isScriptName target then .ok (found.sources p) else .error .notScript
    | directory _ => .ok (found.sources p)

/-- The scripts of all targets, or the first target that is wrong. -/
def allSources (t : FileTree) (working : Path) :
    List Bytes → Except (Bytes × TargetProblem) (List SourceFile)
  | [] => .ok []
  | target :: targets =>
    match t.targetSources working target with
    | .error e => .error (target, e)
    | .ok fs =>
      match allSources t working targets with
      | .error e => .error e
      | .ok gs => .ok (fs ++ gs)

/-- **The scripts of targets**, each once, by their paths in writing. -/
def scripts (t : FileTree) (working : Path) (targets : List Bytes) :
    Except (Bytes × TargetProblem) (List SourceFile) :=
  match t.allSources working targets with
  | .error e => .error e
  | .ok fs =>
    .ok (((Table.empty : Table SourceFile).insertAll (fs.map fun f => (f.path.text, f))).entries.map
      Prod.snd)

end FileTree

end Scriptlet
