import Scriptlet.Proofs.Running.Stops
import Scriptlet.Proofs.Table

/-!
# What a run assigns

A run changes variables of the top level by assignments and by nothing else. The relations here list
them: a run that ends comes with its **log**, the names that it has assigned with their values, in
the order of the assignments. An assignment in the body of a loop is listed once for each round;
one in the body of a function is never listed, since it is to a variable of the call.

The log explains the run. A run ends where it has a log, and then its variables are those before it
with the assignments of the log carried out one after the other (`runStatements_eq_done_iff`). So a
variable that is not in the log is as it was before, and one that is in the log has a value
that was assigned to it.
-/

namespace Scriptlet

/-- A **log** of assignments: the names with the values that they were given, in order. -/
abbrev Assignments := List (Bytes × Value)

/-! ### Logs -/

/-- **What a body on the top level assigns** when it runs to its end, with the meter before and
after it. It holds no return. -/
inductive BodyAssigns (ctx : Context) :
    List (Clause Position) → Bindings → Meter → Assignments → Meter → Prop where
  /-- There is nothing to do. -/
  | nil {vars m} : BodyAssigns ctx [] vars m [] m
  /-- A value is assigned, and the rest of the body sees it. -/
  | assign {mark name value cs vars m m₁ m₂ v log n} : ctx.step m = .done () m₁ →
    evaluate ctx.caller ctx vars value m₁ = .done v m₂ →
    BodyAssigns ctx cs (vars.insert name v) m₂ log n →
    BodyAssigns ctx (.assign mark name value :: cs) vars m ((name, v) :: log) n

/-- **What a loop assigns**, round by round. -/
inductive LoopAssigns (ctx : Context) (condition : Expr Position) (body : List (Clause Position)) :
    Bindings → Meter → Assignments → Meter → Prop where
  /-- The condition fails. -/
  | last {vars m n} : holds ctx vars .loop condition m = .done false n →
    LoopAssigns ctx condition body vars m [] n
  /-- The body runs, and the loop goes on from there. -/
  | again {vars m m₁ m₂ log log' n} : holds ctx vars .loop condition m = .done true m₁ →
    BodyAssigns ctx body vars m₁ log m₂ →
    LoopAssigns ctx condition body (vars.insertAll log) m₂ log' n →
    LoopAssigns ctx condition body vars m (log ++ log') n

/-- **What a statement assigns.** A definition assigns nothing. -/
inductive StatementAssigns (settings : Settings) (w : World) :
    Stmt Position → Meter → Assignments → Meter → Prop where
  | clause {c m log n} : BodyAssigns (settings.context w) [c] w.bindings m log n →
    StatementAssigns settings w (.clause c) m log n
  | func {name f m n} : (settings.context w).step m = .done () n →
    StatementAssigns settings w (.func name f) m [] n
  | condTrue {mark condition body m m₁ m₂ log n} : (settings.context w).step m = .done () m₁ →
    holds (settings.context w) w.bindings .cond condition m₁ = .done true m₂ →
    BodyAssigns (settings.context w) body w.bindings m₂ log n →
    StatementAssigns settings w (.cond mark condition body) m log n
  | condFalse {mark condition body m m₁ n} : (settings.context w).step m = .done () m₁ →
    holds (settings.context w) w.bindings .cond condition m₁ = .done false n →
    StatementAssigns settings w (.cond mark condition body) m [] n
  | loop {mark condition body m m₁ log n} : (settings.context w).step m = .done () m₁ →
    LoopAssigns (settings.context w) condition body w.bindings m₁ log n →
    StatementAssigns settings w (.loop mark condition body) m log n

/-- The world after statements that have assigned certain values. -/
def World.after (w : World) (ss : List (Stmt Position)) (log : Assignments) : World :=
  ⟨w.bindings.insertAll log, ss.foldl Stmt.define w.functions⟩

/-- **What statements assign** in turn. -/
inductive RunAssigns (settings : Settings) :
    World → List (Stmt Position) → Meter → Assignments → Meter → Prop where
  | nil {w m} : RunAssigns settings w [] m [] m
  | cons {w s ss m m' log log' n} : StatementAssigns settings w s m log m' →
    RunAssigns settings (w.after [s] log) ss m' log' n →
    RunAssigns settings w (s :: ss) m (log ++ log') n

/-! ### Bodies and loops -/

section TopLevel

variable {ctx : Context} {condition : Expr Position} {body : List (Clause Position)}
  {vars : Bindings} {m n : Meter} (htop : ctx.calls = [])

include htop

/-- A body on the top level ends where it has a log. -/
theorem runBody_eq_done_iff {r : Bindings × Option Value} :
    runBody ctx.caller ctx body vars m = .done r n ↔
      ∃ log, BodyAssigns ctx body vars m log n ∧ r = (vars.insertAll log, none) := by
  induction body generalizing vars m with
  | nil =>
    rw [runBody]
    constructor
    · intro h
      cases h
      exact ⟨[], .nil, rfl⟩
    · rintro ⟨log, hlog, rfl⟩
      cases hlog
      rfl
  | cons c cs ih =>
    cases c with
    | assign mark name value =>
      simp only [runBody, Eval.bind_eq_done_iff, ih]
      constructor
      · rintro ⟨_, m₁, hstep, v, m₂, hv, log, hlog, rfl⟩
        exact ⟨(name, v) :: log, .assign hstep hv hlog, rfl⟩
      · rintro ⟨log, hlog, rfl⟩
        cases hlog with
        | assign hstep hv hlog => exact ⟨_, _, hstep, _, _, hv, _, hlog, rfl⟩
    | ret mark value =>
      -- on the top level a return fails, so a body with one has no log
      rw [runBody, htop]
      constructor
      · intro h
        obtain ⟨_, m₁, -, h⟩ := Eval.bind_eq_done_iff.1 h
        cases h
      · rintro ⟨log, hlog, -⟩
        cases hlog

omit htop in
/-- A round does nothing when the condition does not hold. -/
theorem round_eq_none_iff :
    round ctx condition body vars m = .done none n ↔
      holds ctx vars .loop condition m = .done false n := by
  rw [round, Eval.bind_eq_done_iff]
  constructor
  · rintro ⟨b, m₁, hholds, h⟩
    cases b with
    | false =>
      cases h
      exact hholds
    | true =>
      obtain ⟨r, m₂, -, h⟩ := Eval.bind_eq_done_iff.1 h
      cases h
  · exact fun h => ⟨false, n, h, rfl⟩

theorem round_eq_some_iff {vars' : Bindings} :
    round ctx condition body vars m = .done (some vars') n ↔
      ∃ m₁ log, holds ctx vars .loop condition m = .done true m₁ ∧
        BodyAssigns ctx body vars m₁ log n ∧ vars' = vars.insertAll log := by
  rw [round, Eval.bind_eq_done_iff]
  constructor
  · rintro ⟨b, m₁, hholds, h⟩
    cases b with
    | false => cases h
    | true =>
      obtain ⟨r, m₂, hbody, h⟩ := Eval.bind_eq_done_iff.1 h
      obtain ⟨log, hlog, rfl⟩ := (runBody_eq_done_iff htop).1 hbody
      cases h
      exact ⟨m₁, log, hholds, hlog, rfl⟩
  · rintro ⟨m₁, log, hholds, hlog, rfl⟩
    have hbody := (runBody_eq_done_iff htop).2 ⟨log, hlog, rfl⟩
    exact ⟨true, m₁, hholds, Eval.bind_eq_done_iff.2 ⟨_, _, hbody, rfl⟩⟩

/-- **A loop ends where it has a log**, by induction over its rounds. -/
theorem loop_eq_done_iff {vars' : Bindings} :
    loop ctx condition body vars m = .done vars' n ↔
      ∃ log, LoopAssigns ctx condition body vars m log n ∧ vars' = vars.insertAll log := by
  constructor
  · intro h
    -- the outcome is a variable in the induction over rounds, with the equation as its premise
    suffices hrounds : ∀ {o}, loop? ctx condition body vars m = some o → o = .done vars' n →
        ∃ log, LoopAssigns ctx condition body vars m log n ∧ vars' = vars.insertAll log from
      hrounds (loop?_of_loop_eq_done h) rfl
    intro o ho
    refine loop?_induction (Q := fun vars m o => o = .done vars' n →
      ∃ log, LoopAssigns ctx condition body vars m log n ∧ vars' = vars.insertAll log)
      (fun _ h => by cases h) ?_ ?_ ho
    · intro vars m n' hround h
      cases h
      exact ⟨[], .last (round_eq_none_iff.1 hround), rfl⟩
    · intro vars m vars₁ n₁ o hround ih h
      obtain ⟨m₁, log, hholds, hbody, rfl⟩ := (round_eq_some_iff htop).1 hround
      obtain ⟨log', hlog', rfl⟩ := ih h
      exact ⟨log ++ log', .again hholds hbody hlog', (Table.insertAll_append _ _ _).symm⟩
  · rintro ⟨log, hlog, rfl⟩
    refine loop_eq_of_loop? ?_
    induction hlog with
    | last hholds => exact loop?_of_none (round_eq_none_iff.2 hholds)
    | again hholds hbody _ ih =>
      rw [loop?_of_some ((round_eq_some_iff htop).2 ⟨_, _, hholds, hbody, rfl⟩), ih,
        Table.insertAll_append]

end TopLevel

/-! ### Statements and runs -/

section Runs

variable {settings : Settings} {w w' : World} {m n : Meter}

/-- A statement ends where it has a log. -/
theorem runStatement_eq_done_iff {s : Stmt Position} :
    runStatement loop settings w s m = .done w' n ↔
      ∃ log, StatementAssigns settings w s m log n ∧ w' = w.after [s] log := by
  have htop : (settings.context w).calls = [] := rfl
  cases s with
  | clause c =>
    simp only [runStatement, Eval.bind_eq_done_iff, runBody_eq_done_iff htop]
    constructor
    · rintro ⟨r, m', ⟨log, hlog, rfl⟩, h⟩
      cases h
      exact ⟨log, .clause hlog, rfl⟩
    · rintro ⟨log, hlog, rfl⟩
      cases hlog with
      | clause hlog => exact ⟨_, _, ⟨log, hlog, rfl⟩, rfl⟩
  | func name f =>
    simp only [runStatement, Eval.bind_eq_done_iff]
    constructor
    · rintro ⟨_, m', hstep, h⟩
      cases h
      exact ⟨[], .func hstep, rfl⟩
    · rintro ⟨log, hlog, rfl⟩
      cases hlog with
      | func hstep => exact ⟨_, _, hstep, rfl⟩
  | cond mark condition body =>
    simp only [runStatement, Eval.bind_eq_done_iff]
    constructor
    · rintro ⟨_, m₁, hstep, b, m₂, hholds, h⟩
      -- the body is run only where the condition holds
      cases b with
      | false =>
        cases h
        exact ⟨[], .condFalse hstep hholds, rfl⟩
      | true =>
        obtain ⟨r, m', hbody, h⟩ := Eval.bind_eq_done_iff.1 h
        obtain ⟨log, hlog, rfl⟩ := (runBody_eq_done_iff htop).1 hbody
        cases h
        exact ⟨log, .condTrue hstep hholds hlog, rfl⟩
    · rintro ⟨log, hlog, rfl⟩
      cases hlog with
      | condTrue hstep hholds hlog =>
        have hbody := (runBody_eq_done_iff htop).2 ⟨log, hlog, rfl⟩
        exact ⟨_, _, hstep, true, _, hholds, Eval.bind_eq_done_iff.2 ⟨_, _, hbody, rfl⟩⟩
      | condFalse hstep hholds => exact ⟨_, _, hstep, false, _, hholds, rfl⟩
  | loop mark condition body =>
    simp only [runStatement, Eval.bind_eq_done_iff, loop_eq_done_iff htop]
    constructor
    · rintro ⟨_, m₁, hstep, vars, m', ⟨log, hlog, rfl⟩, h⟩
      cases h
      exact ⟨log, .loop hstep hlog, rfl⟩
    · rintro ⟨log, hlog, rfl⟩
      cases hlog with
      | loop hstep hlog => exact ⟨_, _, hstep, _, _, ⟨log, hlog, rfl⟩, rfl⟩

theorem World.after_cons (w : World) (s : Stmt Position) (ss : List (Stmt Position))
    (log log' : Assignments) :
    (w.after [s] log).after ss log' = w.after (s :: ss) (log ++ log') := by
  rw [after, after, after, Table.insertAll_append]
  rfl

/-- **A run ends where it has a log**, and then its variables are those before it with the
assignments of the log carried out, and its functions those before it with the definitions among its
statements. -/
theorem runStatements_eq_done_iff {ss : List (Stmt Position)} :
    runStatements loop settings w ss m = .done w' n ↔
      ∃ log, RunAssigns settings w ss m log n ∧ w' = w.after ss log := by
  induction ss generalizing w m with
  | nil =>
    rw [runStatements]
    constructor
    · intro h
      cases h
      exact ⟨[], .nil, rfl⟩
    · rintro ⟨log, hlog, rfl⟩
      cases hlog
      rfl
  | cons s ss ih =>
    simp only [runStatements, Eval.bind_eq_done_iff, runStatement_eq_done_iff, ih]
    constructor
    · rintro ⟨_, m', ⟨log, hlog, rfl⟩, log', hlog', rfl⟩
      exact ⟨log ++ log', .cons hlog hlog', World.after_cons w s ss log log'⟩
    · rintro ⟨_, hlog, rfl⟩
      cases hlog with
      | cons hlog hlog' =>
        exact ⟨_, _, ⟨_, hlog, rfl⟩, _, hlog', (World.after_cons w s ss _ _).symm⟩

end Runs

/-! ### A run has one log -/

section Unique

variable {ctx : Context} {settings : Settings} {w : World} {m n n' : Meter} {log log' : Assignments}

theorem BodyAssigns.unique {cs : List (Clause Position)} {vars : Bindings}
    (h : BodyAssigns ctx cs vars m log n) (h' : BodyAssigns ctx cs vars m log' n') :
    log = log' ∧ n = n' := by
  induction h generalizing log' n' with
  | nil =>
    cases h'
    exact ⟨rfl, rfl⟩
  | assign hstep hv _ ih =>
    cases h' with
    | assign hstep' hv' hlog' =>
      cases hstep.symm.trans hstep'
      cases hv.symm.trans hv'
      obtain ⟨rfl, rfl⟩ := ih hlog'
      exact ⟨rfl, rfl⟩

theorem LoopAssigns.unique {condition : Expr Position} {body : List (Clause Position)}
    {vars : Bindings} (h : LoopAssigns ctx condition body vars m log n)
    (h' : LoopAssigns ctx condition body vars m log' n') : log = log' ∧ n = n' := by
  induction h generalizing log' n' with
  | last hholds =>
    cases h' with
    | last hholds' =>
      cases hholds.symm.trans hholds'
      exact ⟨rfl, rfl⟩
    | again hholds' _ _ => cases hholds.symm.trans hholds'
  | again hholds hbody _ ih =>
    cases h' with
    | last hholds' => cases hholds.symm.trans hholds'
    | again hholds' hbody' hlog' =>
      cases hholds.symm.trans hholds'
      obtain ⟨rfl, rfl⟩ := hbody.unique hbody'
      obtain ⟨rfl, rfl⟩ := ih hlog'
      exact ⟨rfl, rfl⟩

theorem StatementAssigns.unique {s : Stmt Position} (h : StatementAssigns settings w s m log n)
    (h' : StatementAssigns settings w s m log' n') : log = log' ∧ n = n' := by
  cases h with
  | clause hlog =>
    cases h' with
    | clause hlog' => exact hlog.unique hlog'
  | func hstep =>
    cases h' with
    | func hstep' =>
      cases hstep.symm.trans hstep'
      exact ⟨rfl, rfl⟩
  | condTrue hstep hholds hlog =>
    cases h' with
    -- the condition has one value, so both logs go the same way
    | condTrue hstep' hholds' hlog' =>
      cases hstep.symm.trans hstep'
      cases hholds.symm.trans hholds'
      exact hlog.unique hlog'
    | condFalse hstep' hholds' =>
      cases hstep.symm.trans hstep'
      cases hholds.symm.trans hholds'
  | condFalse hstep hholds =>
    cases h' with
    | condTrue hstep' hholds' _ =>
      cases hstep.symm.trans hstep'
      cases hholds.symm.trans hholds'
    | condFalse hstep' hholds' =>
      cases hstep.symm.trans hstep'
      cases hholds.symm.trans hholds'
      exact ⟨rfl, rfl⟩
  | loop hstep hlog =>
    cases h' with
    | loop hstep' hlog' =>
      cases hstep.symm.trans hstep'
      exact hlog.unique hlog'

/-- **A run has one log**: what is assigned is settled by where it starts. -/
theorem RunAssigns.unique {ss : List (Stmt Position)} (h : RunAssigns settings w ss m log n)
    (h' : RunAssigns settings w ss m log' n') : log = log' ∧ n = n' := by
  induction h generalizing log' n' with
  | nil =>
    cases h'
    exact ⟨rfl, rfl⟩
  | cons hlog _ ih =>
    cases h' with
    | cons hlog' hrest' =>
      obtain ⟨rfl, rfl⟩ := hlog.unique hlog'
      obtain ⟨rfl, rfl⟩ := ih hrest'
      exact ⟨rfl, rfl⟩

end Unique

end Scriptlet
