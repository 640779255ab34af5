import Scriptlet.Bytes

/-!
# File trees

A **file tree** is a file with a content, or a directory with named entries. A **path** is the list
of the names on the way from the root, so it is absolute and has no detours in it.

What a user writes is not yet a path: it may be relative to the working directory, and may have
detours. There are two ways from one to the other. *Resolving* a text goes by its wording alone,
whether or not the files exist. *Following* it walks through the tree, one name after another, and
needs a directory at each step.
-/

namespace Scriptlet

/-! ### Paths -/

/-- A path: the names on the way from the root. -/
abbrev Path := List Bytes

namespace Path

/-- A path in writing. -/
def text (p : Path) : Bytes :=
  Bytes.slash :: Bytes.join [Bytes.slash] p

/-- The name of the directory one is in. -/
def here : Bytes := [Bytes.dot]

/-- The name of the directory above. -/
def above : Bytes := [Bytes.dot, Bytes.dot]

/-- One step by wording alone. -/
def step (p : Path) (part : Bytes) : Path :=
  if part = [] ∨ part = here then p
  else if part = above then p.dropLast
  else p ++ [part]

/-- Where a text starts from: the root when it begins with a slash, else the working directory. -/
def start (working : Path) (s : Bytes) : Path :=
  if s.head? = some Bytes.slash then [] else working

/-- **The path of a text**, by its wording alone. -/
def resolve (working : Path) (s : Bytes) : Path :=
  (Bytes.parts Bytes.slash s).foldl step (start working s)

end Path

/-! ### Trees -/

/-- A file or a directory. -/
inductive FileTree where
  /-- A file with its content. -/
  | file (content : Bytes)
  /-- A directory with its entries. -/
  | directory (entries : List (Bytes × FileTree))

namespace FileTree

/-- The entry of a name. -/
def child? (name : Bytes) : List (Bytes × FileTree) → Option FileTree
  | [] => none
  | (n, t) :: es => if n = name then some t else child? name es

/-- The entries with a tree under a name: in place of the entry of that name, or at the end. -/
def setChild (name : Bytes) (t : FileTree) : List (Bytes × FileTree) → List (Bytes × FileTree)
  | [] => [(name, t)]
  | (n, u) :: es => if n = name then (name, t) :: es else (n, u) :: setChild name t es

/-- The entries of a directory; none for a file. -/
def entries : FileTree → List (Bytes × FileTree)
  | file _ => []
  | directory es => es

/-- What stands at a path. -/
def get? : FileTree → Path → Option FileTree
  | t, [] => some t
  | file _, _ :: _ => none
  | directory es, name :: p =>
    match child? name es with
    | some t => get? t p
    | none => none

/-- The tree with something else at a path; directories that are missing on the way are made. -/
def put : (t : FileTree) → Path → (new : FileTree) → FileTree
  | _, [], new => new
  | t, name :: p, new =>
    directory (setChild name (put ((child? name t.entries).getD (directory [])) p new) t.entries)

/-! ### Finding -/

/-- Why a text leads to no file. -/
inductive Problem where
  /-- There is nothing of that name. -/
  | absent
  /-- A file stands where a directory is needed. -/
  | notDirectory
  /-- A directory stands where a file is needed. -/
  | isDirectory
  /-- A name, or the whole text, is too long. -/
  | tooLong
  /-- The text has a zero byte in it. -/
  | zeroByte
  deriving DecidableEq, Repr

/-- The wording of a problem. -/
def Problem.message : Problem → Bytes
  | absent => Bytes.ofString "no such file or directory"
  | notDirectory => Bytes.ofString "not a directory"
  | isDirectory => Bytes.ofString "is a directory"
  | tooLong => Bytes.ofString "file name too long"
  | zeroByte => Bytes.ofString "invalid argument"

/-- The greatest length of a name. -/
def nameLimit : Nat := 255

/-- A text has to be shorter than this. -/
def textLimit : Nat := 4096

/-- Follows names through a tree, from a path on. -/
def follow (t : FileTree) : Path → List Bytes → Except Problem Path
  | p, [] => .ok p
  | p, part :: parts =>
    match t.get? p with
    | none => .error .absent
    | some (file _) => .error .notDirectory
    | some (directory es) =>
      if part = [] ∨ part = Path.here then follow t p parts
      else if part = Path.above then follow t p.dropLast parts
      else if nameLimit < part.length then .error .tooLong
      else if (child? part es).isSome then follow t (p ++ [part]) parts
      else .error .absent

/-- **The path that a text leads to**, and what stands there. -/
def locate (t : FileTree) (working : Path) (s : Bytes) : Except Problem (Path × FileTree) :=
  if s.contains 0 then .error .zeroByte
  else if s.isEmpty then .error .absent
  else if textLimit ≤ s.length then .error .tooLong
  else match follow t (Path.start working s) (Bytes.parts Bytes.slash s) with
    | .error e => .error e
    | .ok p =>
      match t.get? p with
      | some found => .ok (p, found)
      | none => .error .absent

/-- The content of the file at a path. -/
def read (t : FileTree) (p : Path) : Except Problem Bytes :=
  match t.locate [] p.text with
  | .error e => .error e
  | .ok (_, directory _) => .error .isDirectory
  | .ok (_, file content) => .ok content

end FileTree

end Scriptlet
