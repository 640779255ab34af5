import Scriptlet.Files.Tree

/-!
# Writing files into a tree

What a tree holds is seen at its paths: the content of the file at a path, or the names in the
directory there (`contentAt?`, `namesAt?`). Writing the file at a path should change the first of
these in one place and the second nowhere. On lists of entries this is not plain, since an entry is
put in place of another one somewhere on the way.

So writing is compared with something simpler. To **rewrite** a tree is to give each file in it
another content, by where it stands and what it holds, and to keep everything else
(`FileTree.rewrite`). A rewritten tree has the same names everywhere, and whatever is looked up in
the tree is found in the same place. And to write a file that is there is to rewrite the tree
(`put_eq_rewrite`).

This needs directories in which a name stands once, as it does in a tree on a disk: in a **proper**
tree. A path of a proper tree can also be told from its text, as no name has a slash in it.
-/

namespace Scriptlet

/-- What can name an entry of a directory. -/
def IsEntryName (name : Bytes) : Prop := name ≠ [] ∧ Bytes.slash ∉ name

namespace FileTree

/-- **A proper tree**: a directory has each name once, and the names are such. -/
inductive Proper : FileTree → Prop where
  | file (content : Bytes) : Proper (file content)
  | directory {es : List (Bytes × FileTree)} (nodup : (es.map Prod.fst).Nodup)
    (named : ∀ e ∈ es, IsEntryName e.1) (proper : ∀ e ∈ es, Proper e.2) : Proper (directory es)

/-- The content of the file at a path. -/
def contentAt? (t : FileTree) (p : Path) : Option Bytes :=
  match t.get? p with
  | some (file content) => some content
  | _ => none

/-- The names in the directory at a path, in order. -/
def namesAt? (t : FileTree) (p : Path) : Option (List Bytes) :=
  match t.get? p with
  | some (directory es) => some (es.map Prod.fst)
  | _ => none

/-- **Induction over trees**, with all entries of a directory at once. -/
@[elab_as_elim]
theorem induction {P : FileTree → Prop} (file : ∀ content, P (.file content))
    (directory : ∀ es, (∀ e ∈ es, P e.2) → P (.directory es)) (t : FileTree) : P t :=
  @FileTree.rec P (fun es => ∀ e ∈ es, P e.2) (fun e => P e.2) file directory
    (fun _ h => absurd h List.not_mem_nil)
    (fun _ _ hhead htail _ h => (List.mem_cons.1 h).elim (fun he => he ▸ hhead) (htail _))
    (fun _ _ h => h) t

/-! ### Looking up -/

section LookUp

variable {t u : FileTree} {es : List (Bytes × FileTree)} {name content : Bytes} {p : Path}

/-- A path leads through the entry of its first name. -/
theorem get?_cons_eq_some_iff : t.get? (name :: p) = some u ↔
    ∃ es v, t = directory es ∧ child? name es = some v ∧ v.get? p = some u := by
  cases t with
  | file => simp [get?]
  | directory es => cases hv : child? name es <;> simp [get?, hv]

/-- A path is followed in two parts. -/
theorem get?_append (t : FileTree) (p q : Path) :
    t.get? (p ++ q) = (t.get? p).bind fun u => u.get? q := by
  induction p generalizing t with
  | nil => simp [get?]
  | cons name p ih =>
    cases t with
    | file => simp [get?]
    | directory es => cases hv : child? name es <;> simp [get?, hv, ih]

theorem contentAt?_eq_some_iff :
    t.contentAt? p = some content ↔ t.get? p = some (file content) := by
  rw [contentAt?]
  rcases t.get? p with _ | ⟨c⟩ | ⟨es⟩ <;> simp

theorem mem_of_child? (h : child? name es = some u) : (name, u) ∈ es := by
  induction es with
  | nil => cases h
  | cons e es ih =>
    rw [child?] at h
    split at h
    · rename_i hname
      rw [← hname, ← Option.some.inj h]
      exact List.mem_cons_self
    · exact List.mem_cons_of_mem _ (ih h)

/-- Where names occur once, every entry is found under its name. -/
theorem child?_of_mem (hnodup : (es.map Prod.fst).Nodup) (h : (name, u) ∈ es) :
    child? name es = some u := by
  induction es with
  | nil => cases h
  | cons e es ih =>
    obtain ⟨he, hes⟩ := List.nodup_cons.1 hnodup
    rcases List.mem_cons.1 h with rfl | h
    · exact if_pos rfl
    · have hne : e.1 ≠ name := fun heq => he (heq ▸ List.mem_map_of_mem h)
      rw [child?, if_neg hne]
      exact ih hes h

/-- What stands in a proper tree is proper, and on the way there are names. -/
theorem Proper.get? (ht : t.Proper) (h : t.get? p = some u) :
    u.Proper ∧ ∀ name ∈ p, IsEntryName name := by
  induction p generalizing t with
  | nil =>
    obtain rfl := Option.some.inj h
    exact ⟨ht, fun _ hname => absurd hname List.not_mem_nil⟩
  | cons name p ih =>
    obtain ⟨es, v, rfl, hv, h⟩ := get?_cons_eq_some_iff.1 h
    cases ht with
    | directory _ named proper =>
      obtain ⟨hu, hp⟩ := ih (proper _ (mem_of_child? hv)) h
      exact ⟨hu, List.forall_mem_cons.2 ⟨named _ (mem_of_child? hv), hp⟩⟩

end LookUp

/-! ### Rewriting -/

mutual

/-- **A tree with other contents in its files**, each by where the file is and what it holds. -/
def rewrite (g : Path → Bytes → Bytes) (place : Path) : FileTree → FileTree
  | file content => file (g place content)
  | directory es => directory (rewriteAmong g place es)

/-- Entries of the directory at a path with other contents. -/
def rewriteAmong (g : Path → Bytes → Bytes) (place : Path) :
    List (Bytes × FileTree) → List (Bytes × FileTree)
  | [] => []
  | (name, t) :: es => (name, rewrite g (place ++ [name]) t) :: rewriteAmong g place es

end

section Rewrite

variable {g : Path → Bytes → Bytes} {t : FileTree}

theorem rewriteAmong_eq_map (g : Path → Bytes → Bytes) (place : Path)
    (es : List (Bytes × FileTree)) :
    rewriteAmong g place es = es.map fun e => (e.1, e.2.rewrite g (place ++ [e.1])) := by
  induction es with
  | nil => rfl
  | cons e es ih => rw [rewriteAmong, ih, List.map_cons]

theorem rewrite_directory (g : Path → Bytes → Bytes) (place : Path)
    (es : List (Bytes × FileTree)) : (directory es).rewrite g place =
      directory (es.map fun e => (e.1, e.2.rewrite g (place ++ [e.1]))) := by
  rw [rewrite, rewriteAmong_eq_map]

theorem names_rewrite (g : Path → Bytes → Bytes) (place : Path) (es : List (Bytes × FileTree)) :
    (es.map fun e => (e.1, e.2.rewrite g (place ++ [e.1]))).map Prod.fst = es.map Prod.fst := by
  rw [List.map_map]
  rfl

theorem child?_rewrite (g : Path → Bytes → Bytes) (place : Path) (name : Bytes)
    (es : List (Bytes × FileTree)) :
    child? name (es.map fun e => (e.1, e.2.rewrite g (place ++ [e.1]))) =
      (child? name es).map (rewrite g (place ++ [name])) := by
  induction es with
  | nil => rfl
  | cons e es ih =>
    rw [List.map_cons, child?, child?, ih]
    split
    · rename_i hname
      rw [← hname, Option.map_some]
    · rfl

/-- **What stands in a rewritten tree** is what stood there, rewritten. -/
theorem get?_rewrite (g : Path → Bytes → Bytes) (place : Path) (t : FileTree) (p : Path) :
    (t.rewrite g place).get? p = (t.get? p).map (rewrite g (place ++ p)) := by
  induction p generalizing place t with
  | nil => rw [get?, get?, Option.map_some, List.append_nil]
  | cons name p ih =>
    cases t with
    | file content => rfl
    | directory es =>
      rw [rewrite_directory, get?, get?, child?_rewrite]
      cases child? name es with
      | none => rfl
      | some u =>
        rw [Option.map_some]
        exact (ih _ u).trans (by rw [List.append_assoc, List.singleton_append])

/-- A rewritten tree has rewritten files, in the same places. -/
theorem contentAt?_rewrite (g : Path → Bytes → Bytes) (t : FileTree) (p : Path) :
    (t.rewrite g []).contentAt? p = (t.contentAt? p).map (g p) := by
  rw [contentAt?, contentAt?, get?_rewrite]
  rcases t.get? p with _ | ⟨content⟩ | ⟨es⟩ <;> rfl

/-- Rewriting keeps all names. -/
theorem namesAt?_rewrite (g : Path → Bytes → Bytes) (t : FileTree) (p : Path) :
    (t.rewrite g []).namesAt? p = t.namesAt? p := by
  rw [namesAt?, namesAt?, get?_rewrite]
  rcases t.get? p with _ | ⟨content⟩ | ⟨es⟩
  · rfl
  · rfl
  · rw [Option.map_some, rewrite_directory]
    exact congrArg some (names_rewrite g _ es)

/-- Following a text leads to the same path in a rewritten tree. -/
theorem follow_rewrite (g : Path → Bytes → Bytes) (t : FileTree) (p : Path) (parts : List Bytes) :
    (t.rewrite g []).follow p parts = t.follow p parts := by
  induction parts generalizing p with
  | nil => rfl
  | cons part parts ih =>
    rw [follow, follow, get?_rewrite]
    rcases t.get? p with _ | ⟨content⟩ | ⟨es⟩
    · rfl
    · rfl
    · rw [Option.map_some, rewrite_directory]
      simp only [child?_rewrite, Option.isSome_map, ih]

/-- Looking a target up does not depend on what is in the files. -/
theorem locate_rewrite (g : Path → Bytes → Bytes) (t : FileTree) (working : Path) (s : Bytes) :
    (t.rewrite g []).locate working s =
      (t.locate working s).map fun (p, found) => (p, found.rewrite g p) := by
  rw [locate, locate, follow_rewrite]
  split
  · rfl
  · split
    · rfl
    · split
      · rfl
      · rcases t.follow (Path.start working s) (Bytes.parts Bytes.slash s) with e | p
        · rfl
        · simp only [get?_rewrite]
          cases t.get? p <;> rfl

theorem Proper.rewrite (g : Path → Bytes → Bytes) (place : Path) (ht : t.Proper) :
    (t.rewrite g place).Proper := by
  induction ht generalizing place with
  | file content => exact .file _
  | directory nodup named _ ih =>
    rw [rewrite_directory]
    refine .directory ((names_rewrite g place _).symm ▸ nodup) ?_ ?_
    · exact List.forall_mem_map.2 named
    · exact List.forall_mem_map.2 fun e he => ih e he _

/-- A tree in which every file keeps its contents stays as it is. -/
theorem rewrite_eq_self {place : Path} (h : ∀ q c, g (place ++ q) c = c) :
    t.rewrite g place = t := by
  induction t using induction generalizing place with
  | file content =>
    have hplace := h [] content
    rw [List.append_nil] at hplace
    rw [FileTree.rewrite, hplace]
  | directory es ih =>
    rw [rewrite_directory]
    refine congrArg directory ((List.map_congr_left fun e he => ?_).trans (List.map_id es))
    rw [ih e he fun q c => by rw [List.append_assoc]; exact h _ c]
    rfl

/-- Rewriting twice is rewriting once. -/
theorem rewrite_rewrite (g g' : Path → Bytes → Bytes) (t : FileTree) (place : Path) :
    (t.rewrite g place).rewrite g' place = t.rewrite (fun p c => g' p (g p c)) place := by
  induction t using induction generalizing place with
  | file => rfl
  | directory es ih =>
    rw [rewrite_directory, rewrite_directory, rewrite_directory, List.map_map]
    refine congrArg directory (List.map_congr_left fun e he => ?_)
    rw [Function.comp_apply, ih e he]

end Rewrite

/-! ### Writing -/

section Write

variable {t u : FileTree} {es : List (Bytes × FileTree)} {name content : Bytes} {p : Path}

/-- Where names occur once, putting something under one of them changes just its entry. -/
theorem setChild_eq_map (hnodup : (es.map Prod.fst).Nodup) (h : child? name es = some u)
    (v : FileTree) : setChild name v es = es.map fun e => if e.1 = name then (name, v) else e := by
  induction es with
  | nil => cases h
  | cons e es ih =>
    obtain ⟨he, hes⟩ := List.nodup_cons.1 hnodup
    rw [setChild, List.map_cons]
    by_cases hname : e.1 = name
    · rw [if_pos hname, if_pos hname]
      refine congrArg _ ((List.map_congr_left fun e' he' => ?_).trans (List.map_id es)).symm
      refine if_neg fun heq => he ?_
      rw [hname, ← heq]
      exact List.mem_map_of_mem he'
    · rw [child?, if_neg hname] at h
      rw [if_neg hname, if_neg hname, ih hes h]

/-- **To write a file that is there is to rewrite the tree** in that one place. -/
theorem put_eq_rewrite (ht : t.Proper) (h : t.get? p = some (file content)) (place : Path)
    (new : Bytes) : t.put p (file new) =
      t.rewrite (fun q c => if q = place ++ p then new else c) place := by
  induction p generalizing t place with
  | nil =>
    obtain rfl := Option.some.inj h
    rw [put, rewrite, List.append_nil, if_pos rfl]
  | cons name p ih =>
    obtain ⟨es, u, rfl, hu, h⟩ := get?_cons_eq_some_iff.1 h
    cases ht with
    | directory nodup _ proper =>
      rw [put, entries, hu, Option.getD_some, ih (proper _ (mem_of_child? hu)) h (place ++ [name]),
        setChild_eq_map nodup hu, rewrite_directory]
      refine congrArg directory (List.map_congr_left fun e he => ?_)
      by_cases hname : e.1 = name
      · have hsnd : e.2 = u :=
          Option.some.inj ((child?_of_mem nodup (hname ▸ he)).symm.trans hu)
        rw [if_pos hname, hname, hsnd, List.append_assoc, List.singleton_append]
      · -- the path of the file does not lead into any other entry
        have hother : ∀ q c, (if place ++ [e.1] ++ q = place ++ name :: p then new else c) = c := by
          intro q c
          refine if_neg fun heq => hname ?_
          rw [List.append_assoc, List.append_cancel_left_eq, List.singleton_append] at heq
          exact (List.cons.inj heq).1
        rw [if_neg hname, rewrite_eq_self hother]

end Write

end FileTree

end Scriptlet
