import Scriptlet.Proofs.Lint

/-!
# Alarms that are never false

A warning is a guess: the call may stand in a function that is never called, or in the body of a
condition that never holds. On the top level itself nothing is left to chance. A run evaluates every
clause there, and the condition of every block, or it does not come to its end; and an expression
that has a value has had a value for each of its parts (`and` and `or` evaluate both of their sides,
whatever the left one is), so that every call in it was made (`fault?_of_evaluate_done`). So when
there is a warning for an expression of this sort, no run comes to its end.

The functions of which the analysis knows at such a place are those that the run knows there:
whatever is defined so far, and nothing else.

Wherever a warning comes from, it points at a node of the script (`position_mem_marks`).
-/

namespace Scriptlet

variable {owner : Bytes} {known all defined : Lint.Known}

/-! ### Calls that were made -/

section Evaluated

variable {caller : Caller} {ctx : Context} {vars : Bindings}

/-- When a list of expressions has values, none of its calls fails by itself. -/
theorem fault?_of_evaluateList_done {es : List (Expr Position)}
    (ih : ∀ e ∈ es, ∀ {m n v}, evaluate caller ctx vars e m = .done v n →
      ∀ c ∈ e.calls, c.fault? ctx.functions = none) {m n : Meter} {vs : List Value}
    (h : evaluateList caller ctx vars es m = .done vs n) :
    ∀ c ∈ Expr.callsList es, c.fault? ctx.functions = none := by
  induction es generalizing m n vs with
  | nil => exact fun c hc => absurd hc List.not_mem_nil
  | cons e es ihes =>
    rw [evaluateList] at h
    obtain ⟨v, _, he, h⟩ := Eval.bind_eq_done_iff.1 h
    obtain ⟨vs, _, hes, -⟩ := Eval.bind_eq_done_iff.1 h
    exact List.forall_mem_append.2 ⟨ih e List.mem_cons_self he,
      ihes (fun x hx => ih x (List.mem_cons_of_mem _ hx)) hes⟩

/-- **An expression that has a value has made all of its calls**, and none of them went wrong by
itself. -/
theorem fault?_of_evaluate_done {e : Expr Position} {m n : Meter} {v : Value}
    (h : evaluate caller ctx vars e m = .done v n) :
    ∀ c ∈ e.calls, c.fault? ctx.functions = none := by
  induction e generalizing m n v with
  | var | bool | number | text => exact fun c hc => absurd hc List.not_mem_nil
  | array mark elements ih =>
    rw [evaluate] at h
    obtain ⟨_, _, -, h⟩ := Eval.bind_eq_done_iff.1 h
    obtain ⟨vs, _, hvs, -⟩ := Eval.bind_eq_done_iff.1 h
    exact fault?_of_evaluateList_done ih hvs
  | binary mark op left right ihl ihr =>
    rw [evaluate] at h
    obtain ⟨_, _, -, h⟩ := Eval.bind_eq_done_iff.1 h
    obtain ⟨v, _, hl, h⟩ := Eval.bind_eq_done_iff.1 h
    obtain ⟨w, _, hr, -⟩ := Eval.bind_eq_done_iff.1 h
    exact List.forall_mem_append.2 ⟨ihl hl, ihr hr⟩
  | call mark name args ih =>
    rw [evaluate] at h
    obtain ⟨_, _, -, h⟩ := Eval.bind_eq_done_iff.1 h
    -- a call gets to its arguments only when the function is there and takes as many
    rcases hget : ctx.functions.get? name with _ | f
    · rw [hget] at h
      cases h
    · simp only [hget] at h
      split at h
      · rename_i hlength
        obtain ⟨vs, _, hvs, -⟩ := Eval.bind_eq_done_iff.1 h
        refine List.forall_mem_cons.2 ⟨?_, fault?_of_evaluateList_done ih hvs⟩
        simp only [CallSite.fault?, hget, hlength, if_true]
      · cases h
  | index mark object place iho ihp =>
    rw [evaluate] at h
    obtain ⟨_, _, -, h⟩ := Eval.bind_eq_done_iff.1 h
    obtain ⟨v, _, ho, h⟩ := Eval.bind_eq_done_iff.1 h
    obtain ⟨w, _, hp, -⟩ := Eval.bind_eq_done_iff.1 h
    exact List.forall_mem_append.2 ⟨iho ho, ihp hp⟩
  | member mark object property iho =>
    rw [evaluate] at h
    obtain ⟨_, _, -, h⟩ := Eval.bind_eq_done_iff.1 h
    obtain ⟨v, _, ho, -⟩ := Eval.bind_eq_done_iff.1 h
    exact iho ho
  | method mark object name args iho ih =>
    rw [evaluate] at h
    obtain ⟨_, _, -, h⟩ := Eval.bind_eq_done_iff.1 h
    obtain ⟨v, _, ho, h⟩ := Eval.bind_eq_done_iff.1 h
    obtain ⟨ws, _, hargs, -⟩ := Eval.bind_eq_done_iff.1 h
    exact List.forall_mem_append.2 ⟨iho ho, fault?_of_evaluateList_done ih hargs⟩

/-- An expression with a warning has no value. -/
theorem evaluate_ne_done {warning : Warning} {e : Expr Position}
    (h : warning ∈ Lint.expression owner ctx.functions e) {m n : Meter} {v : Value} :
    evaluate caller ctx vars e m ≠ .done v n := by
  intro hdone
  rw [expression_eq_filterMap, List.mem_filterMap] at h
  obtain ⟨c, hc, hwarning⟩ := h
  rw [CallSite.warning?_eq_none_iff.2 (fault?_of_evaluate_done hdone c hc)] at hwarning
  cases hwarning

end Evaluated

/-! ### Where warnings come from -/

namespace Lint

/-- **The warnings for what a run cannot pass over** when it comes to a statement: a clause on the
top level, or the condition of a block. -/
def unconditional (known : Known) : Stmt Position → List Warning
  | .clause c => clause known c
  | .func _ _ => []
  | .cond _ condition _ | .loop _ condition _ => expression scriptName known condition

/-- The warnings for the body of a block, which runs when the condition holds. -/
def guarded (known : Known) : Stmt Position → List Warning
  | .clause _ | .func _ _ => []
  | .cond _ _ body | .loop _ _ body => body.flatMap (clause known)

/-- The warnings for a function that is defined, which runs when it is called. -/
def defining (all : Known) : Stmt Position → List Warning
  | .func name f => function name all f
  | .clause _ | .cond .. | .loop .. => []

end Lint

/-- The findings on statements are those on the first one and, with what it defines, on the others.
-/
theorem statements_cons (stmt : Stmt Position) (ss : List (Stmt Position)) :
    Lint.statements all defined (stmt :: ss) =
      (Lint.unconditional defined stmt ++ Lint.guarded defined stmt ++ Lint.defining all stmt) ++
        Lint.statements all (stmt.define defined) ss := by
  cases stmt with
  | clause c =>
    rw [Lint.unconditional, Lint.guarded, Lint.defining, List.append_nil, List.append_nil]
    rfl
  | func name f => rfl
  | cond mark condition body | loop mark condition body =>
    rw [Lint.unconditional, Lint.guarded, Lint.defining, List.append_nil]
    rfl

/-- **Every warning comes from some statement**, when the functions are known that the statements
before it define. -/
theorem mem_statements_iff {warning : Warning} {ss : List (Stmt Position)} :
    warning ∈ Lint.statements all defined ss ↔ ∃ before stmt after, ss = before ++ stmt :: after ∧
      (warning ∈ Lint.unconditional (before.foldl Stmt.define defined) stmt ∨
        warning ∈ Lint.guarded (before.foldl Stmt.define defined) stmt ∨
        warning ∈ Lint.defining all stmt) := by
  induction ss generalizing defined with
  | nil => simp only [Lint.statements, List.not_mem_nil, List.nil_eq, List.append_eq_nil_iff,
      reduceCtorEq, and_false, false_and, exists_false]
  | cons first ss ih =>
    -- the first statement has warnings of its own, and the others know what it defines
    have hcons : warning ∈ Lint.statements all defined (first :: ss) ↔
        (warning ∈ Lint.unconditional defined first ∨ warning ∈ Lint.guarded defined first ∨
          warning ∈ Lint.defining all first) ∨
        warning ∈ Lint.statements all (first.define defined) ss := by
      simp only [statements_cons, List.mem_append, or_assoc]
    rw [hcons, ih]
    constructor
    · rintro (hfirst | ⟨before, stmt, after, rfl, hstmt⟩)
      · exact ⟨[], first, ss, rfl, hfirst⟩
      · exact ⟨first :: before, stmt, after, rfl, hstmt⟩
    · rintro ⟨_ | ⟨first, before⟩, stmt, after, hss, hstmt⟩
      · cases hss
        exact .inl hstmt
      · cases hss
        exact .inr ⟨before, stmt, after, rfl, hstmt⟩

/-! ### Where warnings point -/

section Positions

variable {warning : Warning} {owner : Bytes}

/-- A finding on an expression is at a node of it. -/
theorem position_mem_marks_of_mem_expression {e : Expr Position}
    (h : warning ∈ Lint.expression owner known e) : warning.position ∈ e.marks := by
  rw [expression_eq_filterMap, List.mem_filterMap] at h
  obtain ⟨site, hsite, hwarning⟩ := h
  obtain ⟨finding, -, rfl⟩ := Option.map_eq_some_iff.1 hwarning
  rw [Expr.calls_eq_filterMap, List.mem_filterMap] at hsite
  obtain ⟨part, hpart, hsite⟩ := hsite
  have hmark : site.mark = part.mark := by
    cases part with
    | call mark name args =>
      cases hsite
      rfl
    | _ => cases hsite
  exact List.mem_map.2 ⟨part, hpart, hmark.symm⟩

theorem position_mem_marks_of_mem_clause {c : Clause Position}
    (h : warning ∈ Lint.clause known c) : warning.position ∈ c.marks := by
  cases c with
  | assign mark name value =>
    exact List.mem_cons_of_mem _ (position_mem_marks_of_mem_expression h)
  | ret mark value =>
    rcases List.mem_cons.1 h with rfl | h
    · exact List.mem_cons_self
    · exact List.mem_cons_of_mem _ (position_mem_marks_of_mem_expression h)

/-- A warning for a body points at something in it, or at the clause before it. -/
theorem position_mem_marks_of_mem_body {before : Clause Position} {cs : List (Clause Position)}
    (h : warning ∈ Lint.body owner known before cs) :
    warning.position ∈ before.mark :: cs.flatMap Clause.marks := by
  induction cs generalizing before with
  | nil =>
    obtain rfl := List.mem_singleton.1 h
    exact List.mem_cons_self
  | cons c cs ih =>
    refine List.mem_cons_of_mem _ ?_
    rw [List.flatMap_cons]
    cases c with
    | assign mark name value =>
      rcases List.mem_append.1 h with h | h
      · exact List.mem_append_left _
          (List.mem_cons_of_mem _ (position_mem_marks_of_mem_expression h))
      · rcases List.mem_cons.1 (ih h) with hmark | hmem
        · exact List.mem_append_left _ (hmark ▸ List.mem_cons_self)
        · exact List.mem_append_right _ hmem
    | ret mark value =>
      rcases List.mem_append.1 h with h | h
      · exact List.mem_append_left _
          (List.mem_cons_of_mem _ (position_mem_marks_of_mem_expression h))
      -- what stands after a return is pointed at by its own mark
      · obtain ⟨c, hc, rfl⟩ := List.mem_map.1 h
        exact List.mem_append_right _ (List.mem_flatMap.2 ⟨c, hc, List.mem_cons_self⟩)

theorem position_mem_marks_of_mem_function {name : Bytes} {f : Func Position}
    (h : warning ∈ Lint.function name all f) :
    warning.position ∈ f.mark :: f.body.flatMap Clause.marks := by
  unfold Lint.function at h
  split at h
  · obtain rfl := List.mem_singleton.1 h
    exact List.mem_cons_self
  · rename_i first clauses hbody
    refine List.mem_cons_of_mem _ ?_
    rw [hbody]
    rcases List.mem_cons.1 (position_mem_marks_of_mem_body h) with hmark | hmem
    · exact List.mem_flatMap.2 ⟨first, List.mem_cons_self, hmark ▸ List.mem_cons_self⟩
    · exact hmem

/-- **Every warning points at a node of the script.** -/
theorem position_mem_marks {script : Script} (h : warning ∈ script.warnings) :
    ∃ stmt ∈ script.statements, warning.position ∈ stmt.marks := by
  rw [Script.warnings, List.mem_mergeSort, mem_statements_iff] at h
  obtain ⟨before, stmt, after, hss, h⟩ := h
  refine ⟨stmt, hss ▸ List.mem_append_right _ List.mem_cons_self, ?_⟩
  cases stmt with
  | clause c =>
    rcases h with h | h | h
    · exact position_mem_marks_of_mem_clause h
    · cases h
    · cases h
  | func name f =>
    rcases h with h | h | h
    · cases h
    · cases h
    · exact position_mem_marks_of_mem_function h
  | cond mark condition body | loop mark condition body =>
    refine List.mem_cons_of_mem _ (List.mem_append.2 ?_)
    rcases h with h | h | h
    · exact .inl (position_mem_marks_of_mem_expression h)
    · obtain ⟨c, hc, h⟩ := List.mem_flatMap.1 h
      exact .inr (List.mem_flatMap.2 ⟨c, hc, position_mem_marks_of_mem_clause h⟩)
    · cases h

end Positions

/-! ### Statements of the first sort -/

/-- An unconditional warning is one for the script itself. -/
theorem function_of_mem_unconditional {warning : Warning} {stmt : Stmt Position}
    (h : warning ∈ Lint.unconditional known stmt) : warning.function = scriptName := by
  have hexpression : ∀ {e : Expr Position}, warning ∈ Lint.expression scriptName known e →
      warning.function = scriptName := by
    intro e h
    rw [expression_eq_filterMap, List.mem_filterMap] at h
    obtain ⟨c, -, hwarning⟩ := h
    obtain ⟨finding, -, rfl⟩ := Option.map_eq_some_iff.1 hwarning
    rfl
  cases stmt with
  | clause c =>
    cases c with
    | assign mark name value => exact hexpression h
    | ret mark value =>
      rcases List.mem_cons.1 h with rfl | h
      · rfl
      · exact hexpression h
  | func name f => cases h
  | cond mark condition body | loop mark condition body => exact hexpression h

/-! ### Statements that cannot be passed -/

section Runs

variable {settings : Settings} {w w' : World} {warning : Warning} {m n : Meter}

/-- A clause with a warning does not come to its end on the top level. -/
theorem runBody_ne_done {clause : Clause Position} {vars : Bindings}
    {r : Bindings × Option Value} (h : warning ∈ Lint.clause w.functions clause) :
    runBody (settings.context w).caller (settings.context w) [clause] vars m ≠ .done r n := by
  intro hdone
  cases clause with
  | assign mark name value =>
    rw [runBody] at hdone
    obtain ⟨_, _, -, hdone⟩ := Eval.bind_eq_done_iff.1 hdone
    obtain ⟨v, _, hvalue, -⟩ := Eval.bind_eq_done_iff.1 hdone
    exact evaluate_ne_done h hvalue
  | ret mark value =>
    -- A return fails here before its value is looked at, whichever of the two the warning is for.
    rw [runBody] at hdone
    obtain ⟨_, _, -, hdone⟩ := Eval.bind_eq_done_iff.1 hdone
    cases hdone

/-- Nor does a condition. -/
theorem holds_ne_done {condition : Expr Position} {vars : Bindings} {construct : Construct}
    {b : Bool} (h : warning ∈ Lint.expression scriptName w.functions condition) :
    holds (settings.context w) vars construct condition m ≠ .done b n := by
  intro hdone
  rw [holds] at hdone
  obtain ⟨v, _, hvalue, -⟩ := Eval.bind_eq_done_iff.1 hdone
  exact evaluate_ne_done h hvalue

/-- **No statement with an unconditional warning comes to its end.** -/
theorem runStatement_ne_done {stmt : Stmt Position}
    (h : warning ∈ Lint.unconditional w.functions stmt) :
    runStatement loop settings w stmt m ≠ .done w' n := by
  intro hdone
  cases stmt with
  | clause c =>
    rw [runStatement] at hdone
    obtain ⟨r, _, hbody, -⟩ := Eval.bind_eq_done_iff.1 hdone
    exact runBody_ne_done h hbody
  | func name f => cases h
  | cond mark condition body =>
    rw [runStatement] at hdone
    obtain ⟨_, _, -, hdone⟩ := Eval.bind_eq_done_iff.1 hdone
    obtain ⟨b, _, hcondition, -⟩ := Eval.bind_eq_done_iff.1 hdone
    exact holds_ne_done h hcondition
  | loop mark condition body =>
    rw [runStatement] at hdone
    obtain ⟨_, m', -, hdone⟩ := Eval.bind_eq_done_iff.1 hdone
    obtain ⟨vars, _, hloop, -⟩ := Eval.bind_eq_done_iff.1 hdone
    -- A loop that comes to its end has gone through its first round.
    have hfirst := loop?_of_loop_eq_done hloop
    rcases hround : round (settings.context w) condition body w.bindings m' with ⟨r, _⟩ | ⟨s, _⟩
    · rw [round] at hround
      obtain ⟨b, _, hcondition, -⟩ := Eval.bind_eq_done_iff.1 hround
      exact holds_ne_done h hcondition
    · rw [loop?_of_stopped hround] at hfirst
      cases hfirst

/-- Where one of several statements cannot be passed, they do not come to their end. -/
theorem runStatements_ne_done {before after : List (Stmt Position)} {stmt : Stmt Position}
    (h : warning ∈ Lint.unconditional (before.foldl Stmt.define w.functions) stmt) :
    runStatements loop settings w (before ++ stmt :: after) m ≠ .done w' n := by
  intro hdone
  rw [runStatements_append] at hdone
  obtain ⟨v, m', hbefore, hdone⟩ := Eval.bind_eq_done_iff.1 hdone
  rw [runStatements] at hdone
  obtain ⟨_, _, hstmt, -⟩ := Eval.bind_eq_done_iff.1 hdone
  rw [← functions_of_runStatements hbefore] at h
  exact runStatement_ne_done h hstmt

end Runs

/-- **Unconditional warnings are never false alarms.** Every warning comes from a statement of the
script: from something that a run cannot pass over, from the body of a block, or from the body of a
function. When there is one of the first sort, it is a warning for the script itself, and no run of
the script comes to its end, whatever its settings are. -/
theorem unconditional_warnings_come_true (script : Script) :
    (∀ warning, warning ∈ script.warnings ↔ ∃ before stmt after,
      script.statements = before ++ stmt :: after ∧
        (warning ∈ Lint.unconditional (Lint.functions before) stmt ∨
          warning ∈ Lint.guarded (Lint.functions before) stmt ∨
          warning ∈ Lint.defining (Lint.functions script.statements) stmt)) ∧
    ∀ before stmt after warning, script.statements = before ++ stmt :: after →
      warning ∈ Lint.unconditional (Lint.functions before) stmt →
      warning.function = scriptName ∧
        ∀ settings v, (runScript settings .empty script).result ≠ .ok v := by
  constructor
  · intro warning
    simp only [functions_eq_foldl]
    rw [Script.warnings, List.mem_mergeSort, mem_statements_iff, functions_eq_foldl]
  · intro before stmt after warning hss h
    refine ⟨function_of_mem_unconditional h, fun settings v hdone => ?_⟩
    -- a run that comes to its end has come through the statement of the warning
    unfold runScript at hdone
    split at hdone
    · rename_i hrun
      rw [hss] at hrun
      rw [functions_eq_foldl] at h
      exact runStatements_ne_done (w := .empty) h hrun
    · cases hdone

/-- The script `a = true or f()`, with no function `f`. -/
def orMissing : Script :=
  ⟨[], [.clause (.assign ⟨1, 1⟩ [97]
    (.binary ⟨1, 10⟩ .or (.bool ⟨1, 5⟩ true) (.call ⟨1, 13⟩ [102] [])))]⟩

/-- The call is made although the left-hand side holds, and so the warning is right. -/
theorem unconditional_warnings_come_true_orMissing :
    orMissing.warnings = [⟨scriptName, ⟨1, 13⟩, .undefinedFunction [102]⟩] ∧
      ∀ settings v, (runScript settings .empty orMissing).result ≠ .ok v := by
  have hwarns : (⟨scriptName, ⟨1, 13⟩, .undefinedFunction [102]⟩ : Warning) ∈
      Lint.unconditional (Lint.functions [])
        (.clause (.assign ⟨1, 1⟩ [97]
          (.binary ⟨1, 10⟩ .or (.bool ⟨1, 5⟩ true) (.call ⟨1, 13⟩ [102] [])))) :=
    List.mem_singleton.2 rfl
  obtain ⟨-, hruns⟩ := unconditional_warnings_come_true orMissing
  exact ⟨List.mergeSort_singleton _, (hruns [] _ [] _ rfl hwarns).2⟩

end Scriptlet
