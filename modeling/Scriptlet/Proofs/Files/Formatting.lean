import Scriptlet.Cli.Command
import Scriptlet.Proofs.Files.Sources
import Scriptlet.Proofs.Layout.Canonical

/-!
# Formatting the scripts of targets

Formatting with writing changes files one after another, and what the targets stand for is looked up
before the first of them. So there are two things to see. One is what a series of writes makes of a
tree: it rewrites it, and a file ends up with the last content it was given
(`foldl_put_eq_rewrite`). The other is that the targets stand for the same files afterwards, as a
rewritten tree has the same names in it (`isTargeted_rewrite`).

A file that formatting has changed is not changed by formatting any more, and so checking finds
nothing to do after writing; before it, checking finds the files that will change.
-/

namespace Scriptlet

open FileTree

/-! ### A series of writes -/

/-- What a file holds after some files were written, by where it is and what it held. -/
def overwrite (files : List SourceFile) (p : Path) (c : Bytes) : Bytes :=
  files.foldl (fun c f => if p = f.path then f.content else c) c

section Overwrite

variable {files : List SourceFile} {f : SourceFile} {p : Path} {c : Bytes}

theorem overwrite_cons : overwrite (f :: files) p c =
    overwrite files p (if p = f.path then f.content else c) :=
  rfl

theorem overwrite_of_forall_ne (h : ∀ f ∈ files, p ≠ f.path) : overwrite files p c = c := by
  induction files with
  | nil => rfl
  | cons f files ih =>
    obtain ⟨hf, hfiles⟩ := List.forall_mem_cons.1 h
    rw [overwrite_cons, if_neg hf, ih hfiles]

/-- A file that is written in only one way holds what was written. -/
theorem overwrite_of_mem (hf : f ∈ files) (hunique : ∀ g ∈ files, g.path = f.path → g = f) :
    overwrite files f.path c = f.content := by
  induction files generalizing c with
  | nil => cases hf
  | cons g files ih =>
    obtain ⟨hg, hfiles⟩ := List.forall_mem_cons.1 hunique
    rw [overwrite_cons]
    by_cases hmem : f ∈ files
    · exact ih hmem hfiles
    · obtain rfl := (List.mem_cons.1 hf).resolve_right hmem
      rw [if_pos rfl]
      exact overwrite_of_forall_ne fun g hg heq => hmem (hfiles g hg heq.symm ▸ hg)

end Overwrite

namespace FileTree

variable {t : FileTree} {working : Path} {targets : List Bytes} {target : Bytes} {p : Path}

/-- **To write files that are there, one after another, is to rewrite the tree.** -/
theorem foldl_put_eq_rewrite {files : List SourceFile} (ht : t.Proper)
    (h : ∀ f ∈ files, ∃ c, t.contentAt? f.path = some c) :
    files.foldl (fun t f => t.put f.path (.file f.content)) t = t.rewrite (overwrite files) [] := by
  induction files generalizing t with
  | nil => exact (rewrite_eq_self fun _ _ => rfl).symm
  | cons f files ih =>
    obtain ⟨⟨c, hc⟩, hfiles⟩ := List.forall_mem_cons.1 h
    rw [List.foldl_cons, put_eq_rewrite ht (contentAt?_eq_some_iff.1 hc) []]
    rw [ih (ht.rewrite _ _), rewrite_rewrite]
    · rfl
    · intro g hg
      obtain ⟨d, hd⟩ := hfiles g hg
      exact ⟨_, by rw [contentAt?_rewrite, hd, Option.map_some]⟩

/-! ### The targets afterwards -/

theorem exists_locate_rewrite_iff (g : Path → Bytes → Bytes) {base : Path} :
    (∃ found, (t.rewrite g []).locate working target = .ok (base, found)) ↔
      ∃ found, t.locate working target = .ok (base, found) := by
  rw [locate_rewrite]
  rcases t.locate working target with e | ⟨p, found⟩
  · simp [Except.map]
  · simp [Except.map]

/-- The same paths are targeted in a rewritten tree. -/
theorem isTargeted_rewrite (g : Path → Bytes → Bytes) :
    (t.rewrite g []).IsTargeted working targets p ↔ t.IsTargeted working targets p := by
  refine and_congr_right fun _ => exists_congr fun target => and_congr_right fun _ =>
    exists_congr fun base => ?_
  simp only [exists_and_left, exists_and_right, exists_locate_rewrite_iff]

theorem isTarget_rewrite (g : Path → Bytes → Bytes) (h : t.IsTarget working target) :
    (t.rewrite g []).IsTarget working target := by
  obtain ⟨base, found, hlocate, hscript⟩ := h
  refine ⟨base, found.rewrite g base, by rw [locate_rewrite, hlocate]; rfl, ?_⟩
  cases found with
  | file content => exact fun _ _ => hscript content rfl
  | directory es =>
    rw [rewrite_directory]
    exact fun _ heq => by cases heq

end FileTree

/-! ### Files that formatting changes -/

namespace Host

section Stale

variable {fs : List SourceFile} {f : SourceFile}

theorem mem_staleFiles_iff :
    f ∈ staleFiles fs ↔ f ∈ fs ∧ Scriptlet.format f.content ≠ f.content := by
  rw [staleFiles, List.mem_filter, bne_iff_ne]
  refine and_congr_right fun _ => not_congr ⟨fun h => congrArg SourceFile.content h, fun h => ?_⟩
  rw [formatted, h]

theorem staleFiles_eq_nil_iff :
    staleFiles fs = [] ↔ ∀ f ∈ fs, Scriptlet.format f.content = f.content := by
  simp [List.eq_nil_iff_forall_not_mem, mem_staleFiles_iff]

/-- A check lists the files that formatting would change, a path on each line. -/
theorem output_formatFiles_check : (formatFiles fs .check).output =
    ((staleFiles fs).map SourceFile.path).flatMap fun p => p.text ++ [Bytes.newline] := by
  rw [formatFiles, List.flatMap_map]
  split
  · rename_i hnil
    rw [hnil]
    rfl
  · rfl

theorem formatFiles_check_of_forall (h : ∀ f ∈ fs, Scriptlet.format f.content = f.content) :
    formatFiles fs .check = {} := by
  rw [formatFiles, staleFiles_eq_nil_iff.2 h]

end Stale

/-! ### Formatting with writing -/

section Write

variable {h : Host} {targets : List Bytes} {fs : List SourceFile} {p : Path} {c : Bytes}

theorem exists_scripts_of_format {mode : FormatMode} (hok : (h.format mode targets).error = none) :
    ∃ fs, h.tree.scripts h.working targets = .ok fs := by
  rw [Host.format] at hok
  split at hok
  · cases hok
  · exact ⟨_, ‹_›⟩

theorem format_eq_formatFiles (hfs : h.tree.scripts h.working targets = .ok fs)
    (mode : FormatMode) : h.format mode targets = formatFiles fs mode := by
  rw [Host.format, hfs]

/-- What is written to a file that is targeted is its content, formatted; if nothing is, it was
formatted before. -/
theorem overwrite_of_isTargeted (ht : h.tree.Proper)
    (hfs : h.tree.scripts h.working targets = .ok fs) (hp : h.tree.IsTargeted h.working targets p)
    (hc : h.tree.contentAt? p = some c) :
    overwrite ((staleFiles fs).map formatted) p c = Scriptlet.format c := by
  have hmem : (⟨p, c⟩ : SourceFile) ∈ fs := (mem_scripts_iff ht hfs).2 ⟨hp, hc⟩
  -- no other file in the list has this path
  have hunique : ∀ g ∈ fs, g.path = p → g = ⟨p, c⟩ := by
    rintro ⟨q, d⟩ hg rfl
    obtain rfl : d = c := Option.some.inj (((mem_scripts_iff ht hfs).1 hg).2.symm.trans hc)
    rfl
  by_cases hstale : Scriptlet.format c = c
  · rw [hstale]
    refine overwrite_of_forall_ne (List.forall_mem_map.2 fun g hg heq => ?_)
    obtain ⟨hgfs, hgstale⟩ := mem_staleFiles_iff.1 hg
    rw [hunique g hgfs heq.symm] at hgstale
    exact hgstale hstale
  · refine overwrite_of_mem (f := formatted ⟨p, c⟩)
      (List.mem_map_of_mem (mem_staleFiles_iff.2 ⟨hmem, hstale⟩)) (List.forall_mem_map.2 ?_)
    intro g hg heq
    rw [hunique g (mem_staleFiles_iff.1 hg).1 heq]

/-- Nothing is written to any other file. -/
theorem overwrite_of_not_isTargeted (ht : h.tree.Proper)
    (hfs : h.tree.scripts h.working targets = .ok fs)
    (hp : ¬h.tree.IsTargeted h.working targets p) :
    overwrite ((staleFiles fs).map formatted) p c = c := by
  refine overwrite_of_forall_ne (List.forall_mem_map.2 fun f hf heq => hp ?_)
  rw [heq]
  exact ((mem_scripts_iff ht hfs).1 (mem_staleFiles_iff.1 hf).1).1

/-- **The tree after formatting with writing.** -/
theorem tree_after_write (ht : h.tree.Proper) (hfs : h.tree.scripts h.working targets = .ok fs) :
    (h.after (formatFiles fs .write)).tree =
      h.tree.rewrite (overwrite ((staleFiles fs).map formatted)) [] :=
  foldl_put_eq_rewrite ht (List.forall_mem_map.2 fun f hf =>
    ⟨f.content, ((mem_scripts_iff ht hfs).1 (mem_staleFiles_iff.1 hf).1).2⟩)

theorem contentAt?_after_write_of_isTargeted (ht : h.tree.Proper)
    (hfs : h.tree.scripts h.working targets = .ok fs)
    (hp : h.tree.IsTargeted h.working targets p) :
    (h.after (formatFiles fs .write)).tree.contentAt? p =
      (h.tree.contentAt? p).map Scriptlet.format := by
  rw [tree_after_write ht hfs, contentAt?_rewrite]
  exact Option.map_congr fun c hc => overwrite_of_isTargeted ht hfs hp hc

theorem contentAt?_after_write_of_not_isTargeted (ht : h.tree.Proper)
    (hfs : h.tree.scripts h.working targets = .ok fs)
    (hp : ¬h.tree.IsTargeted h.working targets p) :
    (h.after (formatFiles fs .write)).tree.contentAt? p = h.tree.contentAt? p := by
  rw [tree_after_write ht hfs, contentAt?_rewrite]
  exact (Option.map_congr fun c _ => overwrite_of_not_isTargeted ht hfs hp).trans Option.map_id'

/-- The files that change are those that formatting changes. -/
theorem mem_map_staleFiles_iff (ht : h.tree.Proper)
    (hfs : h.tree.scripts h.working targets = .ok fs) : p ∈ (staleFiles fs).map SourceFile.path ↔
      (h.after (formatFiles fs .write)).tree.contentAt? p ≠ h.tree.contentAt? p := by
  rw [List.mem_map]
  constructor
  · rintro ⟨f, hf, rfl⟩
    obtain ⟨hmem, hstale⟩ := mem_staleFiles_iff.1 hf
    obtain ⟨hp, hc⟩ := (mem_scripts_iff ht hfs).1 hmem
    rw [contentAt?_after_write_of_isTargeted ht hfs hp, hc, Option.map_some]
    exact fun heq => hstale (Option.some.inj heq)
  -- a path whose content changes is targeted, and there is a file at it
  · intro hne
    have hp : h.tree.IsTargeted h.working targets p := by
      by_contra hp
      exact hne (contentAt?_after_write_of_not_isTargeted ht hfs hp)
    rw [contentAt?_after_write_of_isTargeted ht hfs hp] at hne
    cases hc : h.tree.contentAt? p with
    | none =>
      rw [hc] at hne
      exact absurd rfl hne
    | some c =>
      rw [hc, Option.map_some] at hne
      exact ⟨⟨p, c⟩, mem_staleFiles_iff.2 ⟨(mem_scripts_iff ht hfs).2 ⟨hp, hc⟩,
        fun heq => hne (congrArg some heq)⟩, rfl⟩

/-- **Checking finds nothing after writing**: the targets stand for the same files, and each of them
is formatted. -/
theorem check_after_write (ht : h.tree.Proper)
    (hfs : h.tree.scripts h.working targets = .ok fs) :
    (h.after (formatFiles fs .write)).format .check targets = {} := by
  have htree := tree_after_write ht hfs
  obtain ⟨gs, hgs, -⟩ := scripts_eq_ok_iff.1 hfs
  have htargets := exists_allSources_iff.1 ⟨gs, hgs⟩
  -- the targets are still there, as files and directories keep their names
  obtain ⟨gs', hgs'⟩ := exists_allSources_iff.2 fun target htarget =>
    isTarget_rewrite (overwrite ((staleFiles fs).map formatted)) (htargets target htarget)
  rw [← htree] at hgs'
  have hfs' := scripts_eq_ok_iff.2 ⟨gs', hgs', rfl⟩
  rw [format_eq_formatFiles hfs']
  refine formatFiles_check_of_forall fun f hf => ?_
  obtain ⟨hp, hc⟩ := (mem_scripts_iff (htree ▸ ht.rewrite _ _) hfs').1 hf
  have hp : h.tree.IsTargeted h.working targets f.path := by
    rw [htree] at hp
    exact (isTargeted_rewrite _).1 hp
  rw [contentAt?_after_write_of_isTargeted ht hfs hp] at hc
  obtain ⟨c, -, hformat⟩ := Option.map_eq_some_iff.1 hc
  rw [← hformat]
  exact Layout.format_format c

end Write

/-- **Checking after formatting with writing is clean**, whatever the targets are: the arguments
`write` and `check` ask to format the same targets, and writing goes well. Then

* checking goes well afterwards, and nothing is printed;
* no file or directory comes or goes, a file that is targeted holds what it held, formatted, and any
  other file holds what it held;
* checking before would have listed the files that change, each once and in order. -/
theorem check_after_format_write {h : Host} {write check targets : List Bytes}
    (ht : h.tree.Proper) (hwrite : Invocation.read write = .ok (.format .write targets))
    (hcheck : Invocation.read check = .ok (.format .check targets))
    (hok : (h.execute write).error = none) :
    (h.after (h.execute write)).execute check = {} ∧
      (∀ p, (h.after (h.execute write)).tree.namesAt? p = h.tree.namesAt? p) ∧
      (∀ p, h.tree.IsTargeted h.working targets p →
        (h.after (h.execute write)).tree.contentAt? p =
          (h.tree.contentAt? p).map Scriptlet.format) ∧
      (∀ p, ¬h.tree.IsTargeted h.working targets p →
        (h.after (h.execute write)).tree.contentAt? p = h.tree.contentAt? p) ∧
      ∃ changed : List Path,
        (h.execute check).output = changed.flatMap (fun p => p.text ++ [Bytes.newline]) ∧
          changed.Pairwise (fun p q => Bytes.order p.text q.text = .lt) ∧
          ∀ p, p ∈ changed ↔
            (h.after (h.execute write)).tree.contentAt? p ≠ h.tree.contentAt? p := by
  have hexecute : h.execute write = h.format .write targets := by
    rw [execute, hwrite]
    rfl
  have hexecute' : ∀ h' : Host, h'.execute check = h'.format .check targets := by
    intro h'
    rw [execute, hcheck]
    rfl
  -- writing goes well only where the targets can be looked up, and then both look up the same files
  rw [hexecute] at hok
  obtain ⟨fs, hfs⟩ := exists_scripts_of_format hok
  rw [hexecute, hexecute', hexecute', format_eq_formatFiles hfs, format_eq_formatFiles hfs]
  refine ⟨check_after_write ht hfs, fun p => ?_, fun p =>
    contentAt?_after_write_of_isTargeted ht hfs, fun p =>
    contentAt?_after_write_of_not_isTargeted ht hfs, (staleFiles fs).map SourceFile.path,
    output_formatFiles_check, ?_, fun p => mem_map_staleFiles_iff ht hfs⟩
  · rw [tree_after_write ht hfs, namesAt?_rewrite]
  · exact List.pairwise_map.2 ((pairwise_scripts hfs).sublist List.filter_sublist)

/-- A directory with a script that is not formatted, and another one in a hidden directory. -/
def untidy : Host where
  working := []
  tree := .directory
    [(Bytes.ofString "a.tiny", .file (Bytes.ofString "a = 1 \n")),
      (Bytes.ofString ".git", .directory
        [(Bytes.ofString "b.tiny", .file (Bytes.ofString "b = 2 \n"))])]
  input := []

theorem proper_untidy : untidy.tree.Proper := by
  have hhidden : ∀ e ∈ [(Bytes.ofString "b.tiny", file (Bytes.ofString "b = 2 \n"))], e.2.Proper :=
    List.forall_mem_singleton.2 (.file _)
  refine .directory (by decide) (by unfold IsEntryName; decide) ?_
  refine List.forall_mem_cons.2 ⟨.file _, List.forall_mem_singleton.2 ?_⟩
  exact .directory (by decide) (by unfold IsEntryName; decide) hhidden

/-- Arguments to format the directory, and one of the scripts in it again. -/
def untidyArgs (flag : String) : List Bytes :=
  ["fmt", flag, ".", "./a.tiny"].map Bytes.ofString

theorem check_after_format_write_untidy :
    (untidy.execute (untidyArgs "-w")).error = none ∧
      (untidy.execute (untidyArgs "-check")).output = Bytes.ofString "/a.tiny\n" ∧
      (untidy.after (untidy.execute (untidyArgs "-w"))).execute (untidyArgs "-check") = {} ∧
      (untidy.after (untidy.execute (untidyArgs "-w"))).tree.contentAt? [Bytes.ofString "a.tiny"] =
        some (Bytes.ofString "a = 1\n") := by
  have hwrite : Invocation.read (untidyArgs "-w") =
      .ok (.format .write ([".", "./a.tiny"].map Bytes.ofString)) := by rfl
  have hcheck : Invocation.read (untidyArgs "-check") =
      .ok (.format .check ([".", "./a.tiny"].map Bytes.ofString)) := by rfl
  have hok : (untidy.execute (untidyArgs "-w")).error = none :=
    Option.isNone_iff_eq_none.1 (by decide +kernel)
  obtain ⟨hclean, -, htargeted, -⟩ := check_after_format_write proper_untidy hwrite hcheck hok
  refine ⟨hok, by decide +kernel, hclean, (htargeted _ ?_).trans (by decide +kernel)⟩
  exact ⟨⟨_, rfl, by decide⟩, Bytes.ofString ".", by decide, [], _, [_], rfl, rfl, by decide⟩

end Host

end Scriptlet
