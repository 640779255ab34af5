import Scriptlet.Lint
import Scriptlet.Proofs.Running.Stops
import Scriptlet.Run.Engine

/-!
# What a clean script cannot do

A script is **clean** when the analysis has nothing to say about it. What that is worth is a
statement about all its runs: no function ends without a return, no return stands outside of
functions, and no call on the top level goes wrong by itself. Only one thing is left. A body may
call a function that the script defines further down, and be run before the script has come to the
definition.

The analysis knows two tables of functions, and each has its part in the proof. The functions
defined so far are those that the run knows when it comes to a statement, so the calls on the top
level are looked up in the same table both times. The functions of the whole script are what the
calls in bodies are looked up in; where that table and the one of the run disagree about a name, the
script defines the name later on.
-/

namespace Scriptlet

variable {owner : Bytes} {known all defined : Lint.Known}

/-! ### Expressions and bodies without warnings -/

theorem callFinding?_eq_none_iff {c : CallSite} :
    Lint.callFinding? known c.name c.args = none ↔ c.fault? known = none := by
  rw [Lint.callFinding?, CallSite.fault?]
  rcases known.get? c.name with _ | f
  · exact iff_of_false (Option.some_ne_none _) (Option.some_ne_none _)
  · simp only [ite_eq_left_iff, reduceCtorEq, imp_false, Decidable.not_not]
    exact eq_comm

/-- The warning for a call, if there is something wrong with it by itself. -/
def CallSite.warning? (owner : Bytes) (known : Lint.Known) (c : CallSite) : Option Warning :=
  (Lint.callFinding? known c.name c.args).map (⟨owner, c.mark, ·⟩)

theorem CallSite.warning?_eq_none_iff {c : CallSite} :
    c.warning? owner known = none ↔ c.fault? known = none :=
  Option.map_eq_none_iff.trans callFinding?_eq_none_iff

/-- **The warnings for an expression are those for its calls.** -/
theorem expression_eq_filterMap (e : Expr Position) :
    Lint.expression owner known e = e.calls.filterMap (CallSite.warning? owner known) := by
  -- the warnings of a list are those of its items, in order
  have hlist : ∀ es : List (Expr Position),
      (∀ e ∈ es, Lint.expression owner known e =
        e.calls.filterMap (CallSite.warning? owner known)) →
      Lint.expressions owner known es =
        (Expr.callsList es).filterMap (CallSite.warning? owner known) := by
    intro es
    induction es with
    | nil => exact fun _ => rfl
    | cons e es ihes =>
      intro ih
      rw [Lint.expressions, Expr.callsList, List.filterMap_append, ih e List.mem_cons_self,
        ihes fun x hx => ih x (List.mem_cons_of_mem _ hx)]
  induction e with
  | var | bool | number | text => rfl
  | array mark elements ih => exact hlist elements ih
  | binary mark op left right ihl ihr =>
    rw [Lint.expression, Expr.calls, List.filterMap_append, ihl, ihr]
  | call mark name args ih =>
    rw [Lint.expression, Expr.calls, hlist args ih, List.filterMap_cons, CallSite.warning?]
    cases Lint.callFinding? known name args.length <;> rfl
  | index mark object place iho ihp =>
    rw [Lint.expression, Expr.calls, List.filterMap_append, iho, ihp]
  | member mark object property iho => exact iho
  | method mark object name args iho ih =>
    rw [Lint.expression, Expr.calls, List.filterMap_append, iho, hlist args ih]

/-- **Where there is no warning for an expression, none of its calls goes wrong by itself.** -/
theorem fault?_of_expression {e : Expr Position} (h : Lint.expression owner known e = []) :
    ∀ c ∈ e.calls, c.fault? known = none := by
  rw [expression_eq_filterMap, List.filterMap_eq_nil_iff] at h
  exact fun c hc => CallSite.warning?_eq_none_iff.1 (h c hc)

/-- **A function is in order**: it has a return, and its calls do not go wrong by themselves when
certain functions are known. -/
structure Func.InOrder (known : Lint.Known) (f : Func Position) : Prop where
  returns : ∃ mark value, .ret mark value ∈ f.body
  calls : ∀ c ∈ f.body.flatMap Clause.calls, c.fault? known = none

theorem inOrder_of_body {before : Clause Position} {body : List (Clause Position)}
    (h : Lint.body owner known before body = []) :
    (∃ mark value, .ret mark value ∈ body) ∧
      ∀ c ∈ body.flatMap Clause.calls, c.fault? known = none := by
  induction body generalizing before with
  | nil => cases h
  | cons clause body ih =>
    cases clause with
    | assign mark name value =>
      rw [Lint.body] at h
      obtain ⟨hvalue, hrest⟩ := List.append_eq_nil_iff.1 h
      obtain ⟨⟨mark', value', hret⟩, hcalls⟩ := ih hrest
      exact ⟨⟨mark', value', List.mem_cons_of_mem _ hret⟩,
        List.forall_mem_append.2 ⟨fault?_of_expression hvalue, hcalls⟩⟩
    | ret mark value =>
      rw [Lint.body] at h
      obtain ⟨hvalue, hrest⟩ := List.append_eq_nil_iff.1 h
      -- whatever stood after the return would have been reported
      obtain rfl := List.map_eq_nil_iff.1 hrest
      refine ⟨⟨mark, value, List.mem_cons_self⟩, ?_⟩
      rw [List.flatMap_singleton]
      exact fault?_of_expression hvalue

theorem inOrder_of_function {name : Bytes} {f : Func Position}
    (h : Lint.function name known f = []) : f.InOrder known := by
  unfold Lint.function at h
  split at h
  · cases h
  · rename_i first clauses hbody
    obtain ⟨hreturns, hcalls⟩ := inOrder_of_body h
    rw [← hbody] at hreturns hcalls
    exact ⟨hreturns, hcalls⟩

/-! ### Statements without warnings -/

/-- **A statement of the top level is in order**: it has no return, its calls do not go wrong by
themselves when they know the functions defined so far, and a function that it defines is in order
among all functions. -/
structure Stmt.InOrder (all defined : Lint.Known) (stmt : Stmt Position) : Prop where
  returns : ∀ mark value, .ret mark value ∉ stmt.clauses
  calls : ∀ c ∈ stmt.calls, c.fault? defined = none
  function : ∀ name f, stmt = .func name f → f.InOrder all

theorem fault?_of_clause {clause : Clause Position} (h : Lint.clause known clause = []) :
    (∀ mark value, clause ≠ .ret mark value) ∧ ∀ c ∈ clause.calls, c.fault? known = none := by
  cases clause with
  | assign mark name value => exact ⟨nofun, fault?_of_expression h⟩
  | ret mark value => cases h

theorem inOrder_of_block {condition : Expr Position} {body : List (Clause Position)}
    (h : Lint.expression scriptName known condition ++ body.flatMap (Lint.clause known) = []) :
    (∀ mark value, .ret mark value ∉ body) ∧
      ∀ c ∈ condition.calls ++ body.flatMap Clause.calls, c.fault? known = none := by
  obtain ⟨hcondition, hbody⟩ := List.append_eq_nil_iff.1 h
  have hclause : ∀ clause ∈ body, Lint.clause known clause = [] := List.flatMap_eq_nil_iff.1 hbody
  refine ⟨fun mark value hmem => (fault?_of_clause (hclause _ hmem)).1 mark value rfl, ?_⟩
  refine List.forall_mem_append.2 ⟨fault?_of_expression hcondition, fun c hc => ?_⟩
  obtain ⟨clause, hmem, hc⟩ := List.mem_flatMap.1 hc
  exact (fault?_of_clause (hclause clause hmem)).2 c hc

/-- The functions defined so far are those that the statements before define. -/
theorem inOrder_of_statements {before after : List (Stmt Position)} {stmt : Stmt Position}
    (h : Lint.statements all defined (before ++ stmt :: after) = []) :
    stmt.InOrder all (before.foldl Stmt.define defined) := by
  induction before generalizing defined with
  | nil =>
    cases stmt with
    | clause c =>
      obtain ⟨hreturn, hcalls⟩ := fault?_of_clause (List.append_eq_nil_iff.1 h).1
      refine ⟨fun mark value hmem => ?_, hcalls, nofun⟩
      exact hreturn mark value (List.mem_singleton.1 hmem).symm
    | func name f =>
      refine ⟨fun _ _ hmem => absurd hmem List.not_mem_nil,
        fun _ hc => absurd hc List.not_mem_nil, ?_⟩
      rintro name f ⟨⟩
      exact inOrder_of_function (List.append_eq_nil_iff.1 h).1
    | cond mark condition body | loop mark condition body =>
      obtain ⟨hreturns, hcalls⟩ := inOrder_of_block (List.append_eq_nil_iff.1 h).1
      exact ⟨hreturns, hcalls, nofun⟩
  | cons first before ih =>
    cases first <;> exact ih (List.append_eq_nil_iff.1 h).2

theorem statements_of_warnings {script : Script} (h : script.warnings = []) :
    Lint.statements (Lint.functions script.statements) .empty script.statements = [] :=
  ((List.mergeSort_perm _ _).symm.trans (.of_eq h)).eq_nil

theorem functions_eq_foldl (ss : List (Stmt Position)) :
    Lint.functions ss = ss.foldl Stmt.define .empty := by
  rw [Lint.functions]
  congr 1
  funext known stmt
  cases stmt <;> rfl

/-! ### Later definitions -/

/-- Statements leave a name alone that they do not define. -/
theorem get?_foldl_define_of_not_mem {ss : List (Stmt Position)} {g : Bytes}
    (h : ∀ f, .func g f ∉ ss) : (ss.foldl Stmt.define known).get? g = known.get? g := by
  induction ss generalizing known with
  | nil => rfl
  | cons stmt ss ih =>
    rw [List.foldl_cons, ih fun f hf => h f (List.mem_cons_of_mem _ hf)]
    cases stmt with
    | func name f =>
      refine (Table.get?_insert _ _ _ _).trans (if_neg ?_)
      rintro rfl
      exact h f List.mem_cons_self
    | clause | cond | loop => rfl

/-- A call that goes wrong by itself now, but not once all statements are through, is a call of a
function that they define. -/
theorem exists_func_of_fault? {ss : List (Stmt Position)} {c : CallSite} {fault : Fault}
    (h : c.fault? known = some fault) (hafter : c.fault? (ss.foldl Stmt.define known) = none) :
    ∃ f, .func c.name f ∈ ss := by
  refine Classical.byContradiction fun hnone => ?_
  have hget : (ss.foldl Stmt.define known).get? c.name = known.get? c.name :=
    get?_foldl_define_of_not_mem fun f hf => hnone ⟨f, hf⟩
  rw [CallSite.fault?_congr hget, h] at hafter
  cases hafter

/-! ### Runs of clean scripts -/

/-- **The reasons for which a clean script may stop** in a statement, given those after it. -/
def Foreseen (isolated : Bool) (after : List (Stmt Position)) : Stop → Prop
  | .failed failure => failure.fault.kind ≠ .structural ∧
      ∀ g, failure.fault.callee? = some g →
        failure.calls ≠ [] ∧ (isolated = false → ∃ f, .func g f ∈ after)
  | .cancelled | .unfinished => True

theorem reckons_foreseen (isolated : Bool) (after : List (Stmt Position)) (calls : List Frame) :
    Reckons (Foreseen isolated after) calls := by
  refine ⟨trivial, fun fault position hplain => ⟨hplain.kind, fun g hg => ?_⟩⟩
  rw [hplain.callee] at hg
  cases hg

section Runs

variable {before after : List (Stmt Position)} {stmt : Stmt Position}
  (hclean : Lint.statements (Lint.functions (before ++ stmt :: after)) .empty
    (before ++ stmt :: after) = [])

include hclean

/-- Every function that the run knows is in order among all functions. -/
theorem inOrder_of_get? {name : Bytes} {f : Func Position}
    (h : (before.foldl Stmt.define .empty).get? name = some f) :
    f.InOrder (Lint.functions (before ++ stmt :: after)) := by
  rcases get?_foldl_define h with h | h
  · cases h
  · obtain ⟨earlier, later, rfl⟩ := List.append_of_mem h
    rw [List.append_assoc, List.cons_append] at hclean
    rw [List.append_assoc, List.cons_append]
    exact (inOrder_of_statements hclean).function name f rfl

/-- A function that the run knows keeps to what is foreseen, unless the statement being run is
itself a definition. -/
theorem keepsTo_of_get? {isolated : Bool} {inner : Lint.Known}
    (hinner : inner = if isolated then .empty else before.foldl Stmt.define .empty)
    (hstmt : ∀ name f, stmt ≠ .func name f) {name : Bytes} {f : Func Position}
    (h : (before.foldl Stmt.define .empty).get? name = some f) :
    f.KeepsTo (Foreseen isolated after) inner := by
  have hf := inOrder_of_get? hclean h
  refine ⟨hf.returns, fun c hc fault hfault calls hcalls => ?_⟩
  obtain ⟨hcallee, hkind⟩ := CallSite.callee?_of_fault? hfault
  refine ⟨hkind, fun g hg => ⟨hcalls, fun hopen => ?_⟩⟩
  obtain rfl : c.name = g := Option.some.inj (hcallee.symm.trans hg)
  subst hopen
  have hall := hf.calls c hc
  rw [functions_eq_foldl, List.foldl_append] at hall
  obtain ⟨f', hmem⟩ := exists_func_of_fault? (hinner ▸ hfault) hall
  rcases List.mem_cons.1 hmem with heq | hmem
  · exact absurd heq.symm (hstmt c.name f')
  · exact ⟨f', hmem⟩

/-- **A statement of a clean script stops only for reasons that are foreseen.** -/
theorem foreseen_of_stopped {settings : Settings} {w : World} {m n : Meter} {s : Stop}
    (hw : w.functions = before.foldl Stmt.define .empty)
    (h : runStatement loop settings w stmt m = .stopped s n) :
    Foreseen settings.limits.isolated after s := by
  have hreckon := reckons_foreseen settings.limits.isolated after
  -- a definition takes its step and nothing more; the others call functions that are there by now
  by_cases hdefines : ∃ name f, stmt = .func name f
  · obtain ⟨name, f, rfl⟩ := hdefines
    rw [runStatement] at h
    exact ((hreckon _).step.bind fun _ => .pure _) m s n h
  · have hknown : ∀ name f, w.functions.get? name = some f →
        f.KeepsTo (Foreseen settings.limits.isolated after)
          (if settings.limits.isolated then .empty else w.functions) := by
      intro name f hf
      rw [hw] at hf ⊢
      exact keepsTo_of_get? hclean rfl (fun name f heq => hdefines ⟨name, f, heq⟩) hf
    have hcall : ∀ name site f vs, w.functions.get? name = some f →
        StopsFor (Foreseen settings.limits.isolated after)
          ((settings.context w).caller name site f vs) := by
      intro name site f vs hf
      -- in an isolated call no function is there at all
      refine stopsFor_call hreckon (fun name' g hg => hknown name' g ?_) name site rfl
        (hknown name f hf) vs
      split at hg
      · cases hg
      · exact hg
    obtain ⟨hreturns, hcalls, -⟩ := inOrder_of_statements hclean
    refine stopsFor_runStatement hreckon hcall trivial (fun c hc fault hfault => ?_) hreturns
      m s n h
    rw [show (settings.context w).functions = _ from hw, hcalls c hc] at hfault
    cases hfault

end Runs

/-- **The analysis is sound.** No run of a clean script, whatever its settings, fails because a
function does not return or a return stands outside of functions. If it fails because a function
is called that is not there or takes another number of arguments, then a call is open; and unless
calls are isolated, the run has come to a statement of the script such that a later statement
defines that function. -/
theorem analysis_sound (script : Script) (hclean : script.warnings = []) (settings : Settings)
    (failure : Failure)
    (hfailed : (runScript settings .empty script).result = .error (.failed failure)) :
    failure.fault.kind ≠ .structural ∧
    (failure.calls = [] → failure.fault.callee? = none) ∧
    (settings.limits.isolated = false → ∀ g, failure.fault.callee? = some g →
      failure.calls ≠ [] ∧
      ∃ k stmt w m n, script.statements[k]? = some stmt ∧
        runStatements loop settings .empty (script.statements.take k) ⟨0, []⟩ = .done w m ∧
        runStatement loop settings w stmt m = .stopped (.failed failure) n ∧
        ∃ j f, k < j ∧ script.statements[j]? = some (.func g f)) := by
  obtain ⟨n, hstop⟩ : ∃ n, runStatements loop settings .empty script.statements ⟨0, []⟩ =
      .stopped (.failed failure) n := by
    unfold runScript at hfailed
    split at hfailed
    · cases hfailed
    · rename_i s n hrun
      cases hfailed
      exact ⟨n, hrun⟩
  have hclean := statements_of_warnings hclean
  -- the run came through some statements and stopped in the next one
  obtain ⟨before, stmt, after, w, m, hss, hbefore, hstmt⟩ := exists_of_runStatements_stopped hstop
  rw [hss] at hclean ⊢
  obtain ⟨hkind, hcallee⟩ :=
    foreseen_of_stopped hclean (functions_of_runStatements hbefore) hstmt
  refine ⟨hkind, fun hempty => ?_, fun hopen g hg => ⟨(hcallee g hg).1, ?_⟩⟩
  · rcases hg : failure.fault.callee? with _ | g
    · rfl
    · exact absurd hempty (hcallee g hg).1
  · obtain ⟨f, hf⟩ := (hcallee g hg).2 hopen
    obtain ⟨i, hi⟩ := List.getElem?_of_mem hf
    refine ⟨before.length, stmt, w, m, n, ?_, ?_, hstmt, before.length + 1 + i, f, by omega, ?_⟩
    · rw [List.getElem?_append_right (Nat.le_refl _), Nat.sub_self, List.getElem?_cons_zero]
    · rw [List.take_left]
      exact hbefore
    · rw [List.getElem?_append_right (by omega)]
      rw [show before.length + 1 + i - before.length = i + 1 by omega]
      exact hi

/-- A script that is clean, though it calls `f` before there is the `g` that `f` calls. -/
def forwardCall : Script :=
  ⟨[], [.func [102] ⟨.none, [], [.ret .none (.call .none [103] [])]⟩,
    .clause (.assign .none [97] (.call .none [102] [])),
    .func [103] ⟨.none, [], [.ret .none (.bool .none true)]⟩]⟩

/-- That script fails in the body of `f`, in its second statement, and `g` is defined after it. -/
theorem analysis_sound_forwardCall :
    forwardCall.warnings = [] ∧
    ∃ failure, (runScript ⟨.standard, none⟩ .empty forwardCall).result = .error (.failed failure) ∧
      failure.fault.kind ≠ .structural ∧ failure.fault = .undefinedFunction [103] ∧
      failure.calls ≠ [] ∧
      ∃ k j : Nat, ∃ f : Func Position, k < j ∧
        forwardCall.statements[j]? = some (.func [103] f) := by
  have hclean : forwardCall.warnings = [] := List.mergeSort_nil
  have hrun : (runScript ⟨.standard, none⟩ .empty forwardCall).result =
      .error (.failed ⟨.undefinedFunction [103], .none, [⟨[102], .none⟩]⟩) := rfl
  obtain ⟨hkind, -, hlate⟩ := analysis_sound forwardCall hclean _ _ hrun
  obtain ⟨hcalls, k, -, -, -, -, -, -, -, j, f, hlt, hj⟩ := hlate rfl [103] rfl
  exact ⟨hclean, _, hrun, hkind, rfl, hcalls, k, j, f, hlt, hj⟩

end Scriptlet
