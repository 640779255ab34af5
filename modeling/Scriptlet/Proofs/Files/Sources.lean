import Mathlib.Data.List.Basic
import Scriptlet.Files.Sources
import Scriptlet.Proofs.Files.Tree
import Scriptlet.Proofs.Table
import Scriptlet.Proofs.Text.Lines

/-!
# Which scripts targets stand for

A target is a script, or a directory that is searched. Searching goes down the tree entry by entry;
what it finds can be said without that. It finds a file where it stands, and it comes to a file
below a directory when the name is that of a script and no directory between the two is hidden
(`mem_sources_iff`). The one thing about a target that is decided by its wording, the ending of a
file, is decided by the name in the tree just as well, since a text that leads to a file ends in the
name of that file (`getLast?_of_locate_file`).

So a path is **targeted** in a sense that mentions neither the search nor the wording
(`IsTargeted`), and the scripts of targets are the files at the targeted paths, each once, in the
order of their paths in writing (`mem_scripts_iff`, `pairwise_scripts`).
-/

namespace Scriptlet

/-! ### Paths in writing -/

/-- Paths of names differ in writing. -/
theorem Path.eq_of_text_eq {p q : Path} (hp : ∀ name ∈ p, IsEntryName name)
    (hq : ∀ name ∈ q, IsEntryName name) (h : p.text = q.text) : p = q := by
  have hjoin : Bytes.join [Bytes.slash] p = Bytes.join [Bytes.slash] q := (List.cons.inj h).2
  have hparts : ∀ r : Path, (∀ name ∈ r, IsEntryName name) →
      Bytes.parts Bytes.slash (Bytes.join [Bytes.slash] r) = if r = [] then [[]] else r := by
    intro r hr
    split
    · rename_i hnil
      rw [hnil]
      rfl
    · rename_i hne
      exact Bytes.parts_join hne fun name hname => (hr name hname).2
  have hsame := (hparts p hp).symm.trans ((congrArg _ hjoin).trans (hparts q hq))
  -- no list of names is that of the one empty part
  have hempty : ∀ r : Path, (∀ name ∈ r, IsEntryName name) → r ≠ [[]] := by
    rintro r hr rfl
    exact (hr [] List.mem_cons_self).1 rfl
  split at hsame
  · split at hsame
    · rename_i hpnil hqnil
      rw [hpnil, hqnil]
    · exact absurd hsame.symm (hempty q hq)
  · split at hsame
    · exact absurd hsame (hempty p hp)
    · exact hsame

namespace FileTree

/-! ### Searching a tree -/

/-- **Whether searching a directory comes to a path below it**: the last name is that of a script,
and no directory on the way is hidden. It is where it is in any case. -/
def IsSearchedAt (below : Path) : Prop :=
  (∀ name ∈ below.dropLast, isHidden name = false) ∧
    ∀ name ∈ below.getLast?, isScriptName name = true

section Search

variable {t u : FileTree} {name content : Bytes} {below : Path}

/-- The search of an entry is that of its name, and then of what is below. -/
theorem isSearched_and_iff (h : u.get? below = some (file content)) :
    isSearched name u = true ∧ IsSearchedAt below ↔ IsSearchedAt (name :: below) := by
  cases below with
  | nil =>
    obtain rfl := Option.some.inj h
    simp [isSearched, IsSearchedAt]
  | cons name' below =>
    obtain ⟨es, _, rfl, -⟩ := get?_cons_eq_some_iff.1 h
    simp [isSearched, IsSearchedAt, and_assoc]

theorem sourcesAmong_eq_flatMap (place : Path) (es : List (Bytes × FileTree)) :
    sourcesAmong place es = es.flatMap fun e =>
      if isSearched e.1 e.2 then sources (place ++ [e.1]) e.2 else [] := by
  induction es with
  | nil => rfl
  | cons e es ih => rw [sourcesAmong, ih, List.flatMap_cons]

/-- **What a search finds** is what stands where it comes to. -/
theorem mem_sources_iff (ht : t.Proper) {place : Path} {f : SourceFile} :
    f ∈ t.sources place ↔ ∃ below, f.path = place ++ below ∧
      t.get? below = some (file f.content) ∧ IsSearchedAt below := by
  induction ht generalizing place with
  | file content =>
    rw [sources, List.mem_singleton]
    constructor
    · rintro rfl
      exact ⟨[], (List.append_nil _).symm, rfl, by simp [IsSearchedAt]⟩
    · rintro ⟨below, hpath, hget, -⟩
      cases below with
      | nil =>
        cases hget
        rw [List.append_nil] at hpath
        rw [← hpath]
      | cons name below => cases hget
  | @directory es nodup _ _ ih =>
    rw [sources, sourcesAmong_eq_flatMap, List.mem_flatMap]
    constructor
    · rintro ⟨e, he, hf⟩
      split at hf
      · rename_i hsearched
        obtain ⟨below, hpath, hget, hat⟩ := (ih e he).1 hf
        refine ⟨e.1 :: below, by rw [hpath, List.append_assoc, List.singleton_append], ?_, ?_⟩
        · exact get?_cons_eq_some_iff.2 ⟨es, e.2, rfl, child?_of_mem nodup he, hget⟩
        · exact (isSearched_and_iff hget).1 ⟨hsearched, hat⟩
      · cases hf
    · rintro ⟨below, hpath, hget, hat⟩
      cases below with
      | nil => cases hget
      | cons name below =>
        -- the first name below says in which of the entries the search comes to the file
        obtain ⟨_, v, heq, hv, hget⟩ := get?_cons_eq_some_iff.1 hget
        obtain rfl := FileTree.directory.inj heq
        obtain ⟨hsearched, hbelow⟩ := (isSearched_and_iff hget).2 hat
        refine ⟨(name, v), mem_of_child? hv, ?_⟩
        rw [if_pos hsearched]
        refine (ih _ (mem_of_child? hv)).2 ⟨below, ?_, hget, hbelow⟩
        rw [hpath, List.append_assoc, List.singleton_append]

end Search

/-! ### Where a text leads -/

section Locate

variable {t found : FileTree} {working p q : Path} {part s content : Bytes} {parts : List Bytes}

/-- One step on the way is taken from a directory. -/
theorem exists_of_follow_cons (h : t.follow p (part :: parts) = .ok q) :
    ∃ es p', t.get? p = some (directory es) ∧ t.follow p' parts = .ok q ∧
      (p' = p ∨ p' = p.dropLast ∨ p' = p ++ [part]) := by
  rw [follow] at h
  split at h
  · cases h
  · cases h
  · rename_i es hdirectory
    refine ⟨es, ?_⟩
    split at h
    · exact ⟨p, hdirectory, h, .inl rfl⟩
    · split at h
      · exact ⟨p.dropLast, hdirectory, h, .inr (.inl rfl)⟩
      · split at h
        · cases h
        · split at h
          · exact ⟨p ++ [part], hdirectory, h, .inr (.inr rfl)⟩
          · cases h

/-- What stands above a directory is no file. -/
theorem get?_dropLast_ne_file {es : List (Bytes × FileTree)} (h : t.get? p = some (directory es)) :
    t.get? p.dropLast ≠ some (file content) := by
  intro hfile
  rcases List.eq_nil_or_concat' p with rfl | ⟨r, name, rfl⟩
  · cases h.symm.trans hfile
  · rw [List.dropLast_concat] at hfile
    rw [get?_append, hfile] at h
    cases h

/-- **What leads to a file ends in its name**, by induction on the way there. -/
theorem getLast?_of_follow (h : t.follow p parts = .ok q) (hq : t.get? q = some (file content))
    (hne : parts ≠ []) : q.getLast? = parts.getLast? := by
  induction parts generalizing p with
  | nil => exact absurd rfl hne
  | cons part parts ih =>
    obtain ⟨es, p', hdirectory, hrest, hp'⟩ := exists_of_follow_cons h
    cases parts with
    | nil =>
      obtain rfl : p' = q := Except.ok.inj hrest
      rcases hp' with rfl | rfl | rfl
      · cases hdirectory.symm.trans hq
      · exact absurd hq (get?_dropLast_ne_file hdirectory)
      · exact List.getLast?_concat
    | cons part' parts =>
      rw [List.getLast?_cons_cons]
      exact ih hrest (List.cons_ne_nil part' parts)

/-- Looking a target up is following its parts from where it starts. -/
theorem follow_of_locate (h : t.locate working s = .ok (p, found)) :
    t.follow (Path.start working s) (Bytes.parts Bytes.slash s) = .ok p ∧
      t.get? p = some found := by
  unfold locate at h
  split at h
  · cases h
  · split at h
    · cases h
    · split at h
      · cases h
      · split at h
        · cases h
        · rename_i r hfollow
          split at h
          · rename_i hget
            cases h
            exact ⟨hfollow, hget⟩
          · cases h

/-- A file that is named with the ending of scripts has that ending. -/
theorem getLast?_of_locate_file (h : t.locate working s = .ok (p, file content))
    (hs : isScriptName s = true) : ∃ name, p.getLast? = some name ∧ isScriptName name = true := by
  obtain ⟨hfollow, hget⟩ := follow_of_locate h
  obtain ⟨r, rfl⟩ := Bytes.endsWith_eq_true_iff.1 hs
  have hslash : Bytes.slash ∉ scriptEnding := by decide
  obtain ⟨name, hname⟩ := Bytes.exists_getLast?_parts_append hslash r
  refine ⟨name ++ scriptEnding, ?_, Bytes.endsWith_eq_true_iff.2 ⟨name, rfl⟩⟩
  rw [getLast?_of_follow hfollow hget (Bytes.parts_ne_nil _ _), hname]

end Locate

/-! ### Targets -/

/-- **A path that is targeted**: it is that of a script, and it is a target or lies below one, with
no hidden directory on the way from there. -/
def IsTargeted (t : FileTree) (working : Path) (targets : List Bytes) (p : Path) : Prop :=
  (∃ name, p.getLast? = some name ∧ isScriptName name = true) ∧
    ∃ target ∈ targets, ∃ base found below, t.locate working target = .ok (base, found) ∧
      p = base ++ below ∧ ∀ name ∈ below.dropLast, isHidden name = false

/-- **A target that can be worked on**: it leads somewhere, and if that is a file it is a script. -/
def IsTarget (t : FileTree) (working : Path) (target : Bytes) : Prop :=
  ∃ base found, t.locate working target = .ok (base, found) ∧
    ∀ content, found = file content → isScriptName target = true

section Targets

variable {t found : FileTree} {working base : Path} {target : Bytes} {targets : List Bytes}
  {fs : List SourceFile} {f : SourceFile}

/-- A target has sources when it is found and is either a directory or a file with the name of a
script. -/
theorem targetSources_eq_ok_iff : t.targetSources working target = .ok fs ↔
    ∃ base found, t.locate working target = .ok (base, found) ∧
      (∀ content, found = file content → isScriptName target = true) ∧ fs = found.sources base := by
  rw [targetSources]
  constructor
  · intro h
    split at h
    · cases h
    · rename_i base found hlocate
      refine ⟨base, found, hlocate, ?_⟩
      split at h
      · split at h
        · rename_i hscript
          exact ⟨fun _ _ => hscript, (Except.ok.inj h).symm⟩
        · cases h
      · exact ⟨fun _ heq => (by cases heq), (Except.ok.inj h).symm⟩
  · rintro ⟨base, found, hlocate, hscript, rfl⟩
    rw [hlocate]
    cases found with
    | file content => exact if_pos (hscript content rfl)
    | directory es => rfl

theorem isTarget_iff :
    t.IsTarget working target ↔ ∃ fs, t.targetSources working target = .ok fs := by
  simp only [targetSources_eq_ok_iff, IsTarget]
  constructor
  · rintro ⟨base, found, hlocate, hscript⟩
    exact ⟨_, base, found, hlocate, hscript, rfl⟩
  · rintro ⟨_, base, found, hlocate, hscript, -⟩
    exact ⟨base, found, hlocate, hscript⟩

/-- Targets are looked up in order, and all of them have to be found. -/
theorem allSources_cons_eq_ok_iff : t.allSources working (target :: targets) = .ok fs ↔
    ∃ gs hs, t.targetSources working target = .ok gs ∧ t.allSources working targets = .ok hs ∧
      fs = gs ++ hs := by
  rw [allSources]
  rcases t.targetSources working target with e | gs
  · simp
  · rcases t.allSources working targets with e | hs
    · simp
    · simp [eq_comm]

/-- The search goes well when every target can be worked on. -/
theorem exists_allSources_iff : (∃ fs, t.allSources working targets = .ok fs) ↔
    ∀ target ∈ targets, t.IsTarget working target := by
  induction targets with
  | nil => simp [allSources]
  | cons target targets ih =>
    rw [List.forall_mem_cons, ← ih, isTarget_iff]
    simp only [allSources_cons_eq_ok_iff]
    constructor
    · rintro ⟨_, gs, hs, hgs, hhs, -⟩
      exact ⟨⟨gs, hgs⟩, hs, hhs⟩
    · rintro ⟨⟨gs, hgs⟩, hs, hhs⟩
      exact ⟨_, gs, hs, hgs, hhs, rfl⟩

/-- What is found is found at one of the targets. -/
theorem mem_allSources_iff (h : t.allSources working targets = .ok fs) :
    f ∈ fs ↔ ∃ target ∈ targets, ∃ gs, t.targetSources working target = .ok gs ∧ f ∈ gs := by
  induction targets generalizing fs with
  | nil =>
    cases h
    simp
  | cons target targets ih =>
    obtain ⟨gs, hs, hgs, hhs, rfl⟩ := allSources_cons_eq_ok_iff.1 h
    simp only [List.mem_append, ih hhs, List.exists_mem_cons_iff, hgs, Except.ok.injEq,
      exists_eq_left']

/-- **The scripts found are the files at the targeted paths.** -/
theorem mem_allSources_iff_isTargeted (ht : t.Proper) (h : t.allSources working targets = .ok fs) :
    f ∈ fs ↔ t.IsTargeted working targets f.path ∧ t.contentAt? f.path = some f.content := by
  rw [mem_allSources_iff h, contentAt?_eq_some_iff]
  constructor
  · rintro ⟨target, htarget, gs, hgs, hf⟩
    obtain ⟨base, found, hlocate, hscript, rfl⟩ := targetSources_eq_ok_iff.1 hgs
    obtain ⟨-, hfound⟩ := follow_of_locate hlocate
    obtain ⟨below, hpath, hget, hvisible, hlast⟩ := (mem_sources_iff (ht.get? hfound).1).1 hf
    refine ⟨⟨?_, target, htarget, base, found, below, hlocate, hpath, hvisible⟩, ?_⟩
    -- a target that is a file itself has to be a script, a file below a target is one by its own
    -- name
    · rcases List.eq_nil_or_concat' below with rfl | ⟨r, name, rfl⟩
      · obtain rfl := Option.some.inj hget
        rw [hpath, List.append_nil]
        exact getLast?_of_locate_file hlocate (hscript _ rfl)
      · refine ⟨name, ?_, hlast name List.getLast?_concat⟩
        rw [hpath, ← List.append_assoc, List.getLast?_concat]
    · rw [hpath, get?_append, hfound, Option.bind_some, hget]
  · rintro ⟨⟨⟨name, hname, hscript⟩, target, htarget, base, found, below, hlocate, hpath, hvisible⟩,
      hget⟩
    obtain ⟨gs, hgs⟩ := isTarget_iff.1 (exists_allSources_iff.1 ⟨fs, h⟩ target htarget)
    refine ⟨target, htarget, gs, hgs, ?_⟩
    obtain ⟨base', found', hlocate', -, rfl⟩ := targetSources_eq_ok_iff.1 hgs
    cases hlocate.symm.trans hlocate'
    obtain ⟨-, hfound⟩ := follow_of_locate hlocate
    refine (mem_sources_iff (ht.get? hfound).1).2 ⟨below, hpath, ?_, hvisible, ?_⟩
    · rwa [hpath, get?_append, hfound, Option.bind_some] at hget
    · rintro last hlast
      obtain ⟨r, rfl⟩ := List.getLast?_eq_some_iff.1 hlast
      rw [hpath, ← List.append_assoc, List.getLast?_concat] at hname
      exact Option.some.inj hname ▸ hscript

end Targets

/-! ### In order -/

section Listing

variable {t : FileTree} {working : Path} {targets : List Bytes} {fs gs : List SourceFile}
  {f : SourceFile}

/-- Files by their paths in writing. -/
def byText (fs : List SourceFile) : Table SourceFile :=
  Table.empty.insertAll (fs.map fun f => (f.path.text, f))

theorem of_mem_entries_byText {n : Bytes} (h : (n, f) ∈ (byText fs).entries) :
    n = f.path.text ∧ f ∈ fs := by
  have hget := Table.get?_eq_some_iff.2 h
  have hmem : n ∈ (fs.map fun f => (f.path.text, f)).map Prod.fst :=
    (Table.mem_names_insertAll_iff.1 (Table.mem_names_iff.2 ⟨f, hget⟩)).resolve_left
      List.not_mem_nil
  obtain ⟨g, hg, hget'⟩ := Table.exists_get?_insertAll_of_mem Table.empty hmem
  obtain rfl := Option.some.inj (hget.symm.trans hget')
  obtain ⟨f', hf', heq⟩ := List.mem_map.1 hg
  cases heq
  exact ⟨rfl, hf'⟩

/-- Nothing is lost when the files differ in their paths in writing. -/
theorem exists_mem_entries_byText
    (hdistinct : ∀ f ∈ fs, ∀ g ∈ fs, f.path.text = g.path.text → f = g) (h : f ∈ fs) :
    (f.path.text, f) ∈ (byText fs).entries := by
  have hmem : f.path.text ∈ (fs.map fun f => (f.path.text, f)).map Prod.fst := by
    rw [List.map_map]
    exact List.mem_map_of_mem h
  obtain ⟨g, hg, hget⟩ := Table.exists_get?_insertAll_of_mem Table.empty hmem
  obtain ⟨f', hf', heq⟩ := List.mem_map.1 hg
  obtain ⟨htext, rfl⟩ := Prod.mk.inj heq
  rw [hdistinct f h f' hf' htext.symm]
  exact Table.get?_eq_some_iff.1 (hdistinct f h f' hf' htext.symm ▸ hget)

/-- The scripts of some targets are their sources by path. -/
theorem scripts_eq_ok_iff : t.scripts working targets = .ok fs ↔
    ∃ gs, t.allSources working targets = .ok gs ∧ fs = (byText gs).entries.map Prod.snd := by
  rw [scripts]
  rcases t.allSources working targets with e | gs
  · simp
  · simp [byText, eq_comm]

/-- **The scripts of targets** are the files at the targeted paths. -/
theorem mem_scripts_iff (ht : t.Proper) (h : t.scripts working targets = .ok fs) :
    f ∈ fs ↔ t.IsTargeted working targets f.path ∧ t.contentAt? f.path = some f.content := by
  obtain ⟨gs, hgs, rfl⟩ := scripts_eq_ok_iff.1 h
  have hmem {g : SourceFile} := mem_allSources_iff_isTargeted (f := g) ht hgs
  rw [← hmem, List.mem_map]
  constructor
  · rintro ⟨⟨n, g⟩, he, rfl⟩
    exact (of_mem_entries_byText he).2
  · intro hf
    refine ⟨(f.path.text, f), exists_mem_entries_byText ?_ hf, rfl⟩
    -- paths that are written the same are the same, and then so are the files at them
    intro g hg g' hg' htext
    obtain ⟨-, hcontent⟩ := hmem.1 hg
    obtain ⟨-, hcontent'⟩ := hmem.1 hg'
    have hpath : g.path = g'.path :=
      Path.eq_of_text_eq (ht.get? (contentAt?_eq_some_iff.1 hcontent)).2
        (ht.get? (contentAt?_eq_some_iff.1 hcontent')).2 htext
    rw [hpath, hcontent'] at hcontent
    cases g
    cases g'
    cases hpath
    cases hcontent
    rfl

/-- The scripts of targets come in the order of their paths in writing, each once. -/
theorem pairwise_scripts (h : t.scripts working targets = .ok fs) :
    fs.Pairwise fun f g => Bytes.order f.path.text g.path.text = .lt := by
  obtain ⟨gs, -, rfl⟩ := scripts_eq_ok_iff.1 h
  refine List.pairwise_map.2 ((byText gs).sorted.imp_of_mem fun {e e'} he he' hlt => ?_)
  rwa [← (of_mem_entries_byText he).1, ← (of_mem_entries_byText he').1]

end Listing

end FileTree

end Scriptlet
