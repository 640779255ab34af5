import Mathlib.Data.List.Dedup
import Scriptlet.Proofs.Running.Assignments
import Scriptlet.Run.Engine

/-!
# Which names a run binds

A script shows, before it is run, which names it can leave bound: those that it assigns on the top
level, outright or in the body of a conditional or of a loop. The ones that it assigns outright are
bound whenever the run ends, since a run that ends has come past every statement. For a script of
assignments there is no difference between the two, and the names are known exactly.

Parameters, and what the bodies of functions assign, are names of a call and of no other place. So
the lists here say nothing about a definition (`Stmt.mayBind`).

All of this is read off the log of a run. What a statement logs lies between the two lists, by
induction over the rounds where the statement is a loop (`StatementAssigns.mayBind`), and the names
bound after a run that starts with nothing are those in its log.
-/

namespace Scriptlet

section Tree

variable {α : Type}

/-- The name that a clause assigns. A return assigns none. -/
def Clause.binds : Clause α → List Bytes
  | .assign _ name _ => [name]
  | .ret _ _ => []

/-- **The names that a statement assigns outright**, whatever else happens. -/
def Stmt.binds : Stmt α → List Bytes
  | .clause c => c.binds
  | .func _ _ | .cond _ _ _ | .loop _ _ _ => []

/-- **The names that a statement may assign**: outright, or in the body of a conditional or a loop.
The body of a function assigns variables of its calls only. -/
def Stmt.mayBind : Stmt α → List Bytes
  | .clause c => c.binds
  | .func _ _ => []
  | .cond _ _ body | .loop _ _ body => body.flatMap Clause.binds

/-- Whether a statement is an assignment. -/
def Stmt.isAssignment : Stmt α → Bool
  | .clause (.assign _ _ _) => true
  | _ => false

theorem Stmt.mayBind_eq_binds {s : Stmt α} (h : s.isAssignment = true) : s.mayBind = s.binds := by
  match s, h with
  | .clause (.assign _ _ _), _ => rfl

end Tree

namespace Script

/-- The names that a script assigns outright, as often as it does. -/
def binds (script : Script) : List Bytes :=
  script.statements.flatMap Stmt.binds

/-- The names that a script may assign. -/
def mayBind (script : Script) : List Bytes :=
  script.statements.flatMap Stmt.mayBind

end Script

/-! ### The names in a log -/

section Logs

variable {ctx : Context} {settings : Settings} {w : World} {m n : Meter} {log : Assignments}

/-- A body that runs to its end has assigned all its names, in order. -/
theorem BodyAssigns.names {cs : List (Clause Position)} {vars : Bindings}
    (h : BodyAssigns ctx cs vars m log n) : log.map Prod.fst = cs.flatMap Clause.binds := by
  induction h with
  | nil => rfl
  | assign _ _ _ ih =>
    rw [List.map_cons, ih, List.flatMap_cons, Clause.binds, List.singleton_append]

/-- **A loop assigns names of its body only**, by induction over its rounds. -/
theorem LoopAssigns.subset {condition : Expr Position} {body : List (Clause Position)}
    {vars : Bindings} (h : LoopAssigns ctx condition body vars m log n) :
    log.map Prod.fst ⊆ body.flatMap Clause.binds := by
  induction h with
  | last => exact List.nil_subset _
  | again _ hbody _ ih =>
    rw [List.map_append, hbody.names]
    exact List.append_subset_of_subset_of_subset (List.Subset.refl _) ih

theorem StatementAssigns.mayBind {s : Stmt Position} (h : StatementAssigns settings w s m log n) :
    log.map Prod.fst ⊆ s.mayBind := by
  cases h with
  | clause hbody =>
    rw [hbody.names, List.flatMap_singleton]
    exact List.Subset.refl _
  | func => exact List.nil_subset _
  | condTrue _ _ hbody => exact hbody.names ▸ List.Subset.refl _
  | condFalse => exact List.nil_subset _
  | loop _ hloop => exact hloop.subset

theorem StatementAssigns.binds {s : Stmt Position} (h : StatementAssigns settings w s m log n) :
    s.binds ⊆ log.map Prod.fst := by
  cases h with
  | clause hbody =>
    rw [hbody.names, List.flatMap_singleton]
    exact List.Subset.refl _
  | func | condTrue | condFalse | loop => exact List.nil_subset _

/-- **The names in the log of a run** lie between those that its statements assign outright and
those that they may assign. -/
theorem RunAssigns.names {ss : List (Stmt Position)} (h : RunAssigns settings w ss m log n) :
    ss.flatMap Stmt.binds ⊆ log.map Prod.fst ∧ log.map Prod.fst ⊆ ss.flatMap Stmt.mayBind := by
  induction h with
  | nil => exact ⟨List.nil_subset _, List.nil_subset _⟩
  | cons hstmt _ ih =>
    obtain ⟨hbinds, hmay⟩ := ih
    rw [List.flatMap_cons, List.flatMap_cons, List.map_append]
    constructor
    · exact List.append_subset_of_subset_of_subset
        (List.subset_append_of_subset_left _ hstmt.binds)
        (List.subset_append_of_subset_right _ hbinds)
    · exact List.append_subset_of_subset_of_subset
        (List.subset_append_of_subset_left _ hstmt.mayBind)
        (List.subset_append_of_subset_right _ hmay)

end Logs

/-! ### The names that are bound -/

/-- A script that runs to its end from nothing leaves the names of its log bound. -/
theorem exists_log_of_runScript {settings : Settings} {script : Script} {w : World}
    (h : (runScript settings .empty script).result = .ok w) :
    ∃ log m, RunAssigns settings .empty script.statements ⟨0, []⟩ log m ∧
      ∀ x, x ∈ w.bindings.names ↔ x ∈ log.map Prod.fst := by
  unfold runScript at h
  split at h
  · rename_i w' m hrun
    obtain rfl : w' = w := Except.ok.inj h
    obtain ⟨log, hlog, rfl⟩ := runStatements_eq_done_iff.1 hrun
    refine ⟨log, m, hlog, fun x => Table.mem_names_insertAll_iff.trans ?_⟩
    exact or_iff_right List.not_mem_nil
  · cases h

/-- **Which names a run binds.** When a script runs to its end from nothing, under whatever limits,

* every name that it assigns outright on the top level is bound;
* every name that is bound is assigned on the top level, outright or in the body of a conditional or
  a loop, and so no name is that only functions use;
* and if the script is made of assignments, as many names are bound as are assigned, each counted
  once. -/
theorem run_binds_assigned {settings : Settings} {script : Script} {w : World}
    (h : (runScript settings .empty script).result = .ok w) :
    (∀ x ∈ script.binds, x ∈ w.bindings.names) ∧
      (∀ x ∈ w.bindings.names, x ∈ script.mayBind) ∧
      ((∀ s ∈ script.statements, s.isAssignment = true) →
        w.bindings.size = script.binds.dedup.length) := by
  obtain ⟨log, m, hlog, hnames⟩ := exists_log_of_runScript h
  have hbinds : ∀ x ∈ script.binds, x ∈ w.bindings.names := fun x hx =>
    (hnames x).2 (hlog.names.1 hx)
  have hmay : ∀ x ∈ w.bindings.names, x ∈ script.mayBind := fun x hx =>
    hlog.names.2 ((hnames x).1 hx)
  refine ⟨hbinds, hmay, fun hassignments => ?_⟩
  have hsame : script.mayBind = script.binds :=
    List.flatMap_congr fun s hs => Stmt.mayBind_eq_binds (hassignments s hs)
  have hperm : w.bindings.names.Perm script.binds.dedup := by
    refine (List.perm_ext_iff_of_nodup (Table.nodup_names _) (List.nodup_dedup _)).2 fun x => ?_
    rw [List.mem_dedup]
    exact ⟨fun hx => hsame ▸ hmay x hx, hbinds x⟩
  rw [← hperm.length_eq, Table.names, List.length_map, Table.size]

/-- `a` and `c` are assigned outright, and `b` under a condition. The function `f` has a parameter
`c` and assigns `a` and `d`. -/
def reusedNames : Script :=
  ⟨[], [.func [102] ⟨.none, [[99]], [.assign .none [97] (.bool .none false),
      .assign .none [100] (.var .none [99]), .ret .none (.var .none [100])]⟩,
    .clause (.assign .none [97] (.bool .none true)),
    .cond .none (.call .none [102] [.var .none [97]]) [.assign .none [98] (.var .none [97])],
    .clause (.assign .none [99] (.bool .none false))]⟩

/-- `a` is assigned twice and `b` once. -/
def assignedTwice : Script :=
  ⟨[], [.clause (.assign .none [97] (.bool .none true)),
    .clause (.assign .none [98] (.var .none [97])),
    .clause (.assign .none [97] (.bool .none false))]⟩

/-- A run that calls a function whose names are also those of the top level, and one of assignments
only. -/
theorem run_binds_assigned_reusedNames :
    (∃ w, (runScript ⟨.standard, none⟩ .empty reusedNames).result = .ok w ∧
      w.bindings.names = [[97], [98], [99]] ∧
      (∀ x ∈ [[97], [99]], x ∈ w.bindings.names) ∧
      ∀ x ∈ w.bindings.names, x ∈ [[97], [98], [99]]) ∧
    ∃ w, (runScript ⟨.standard, none⟩ .empty assignedTwice).result = .ok w ∧
      w.bindings.size = [[97], [98], [97]].dedup.length := by
  constructor
  · refine ⟨_, rfl, rfl, ?_⟩
    obtain ⟨hbinds, hmay, -⟩ :=
      @run_binds_assigned ⟨.standard, none⟩ reusedNames _ rfl
    exact ⟨hbinds, hmay⟩
  · refine ⟨_, rfl, ?_⟩
    obtain ⟨-, -, hsize⟩ :=
      @run_binds_assigned ⟨.standard, none⟩ assignedTwice _ rfl
    exact hsize (by decide)

end Scriptlet
