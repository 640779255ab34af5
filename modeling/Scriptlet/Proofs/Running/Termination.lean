import Mathlib.Data.List.MinMax
import Scriptlet.Proofs.Running.Interruption
import Scriptlet.Proofs.Running.Stops
import Scriptlet.Proofs.Table

/-!
# Runs end

A loop without a limit may go on for good, and nothing else can. With a quota a run is over one step
beyond it at the latest. Without one, and without loops, what ends a run is that only so many calls
may be open at once.

The second part is a count. An evaluation **ends within** a number of steps (`Ends`) when it takes
no more than these whatever it comes to, and is never `unfinished`; two such evaluations in turn end
within the sum. Everything in a script takes one step for each node that it has, apart from what its
calls take. So if calls end within `k` steps, a piece of the script with `n` nodes ends within
`n * (k + 1)`. A body holds no loop, and the body of a call runs with one call less to spare. The
induction is on that number: with bodies of at most `n` nodes and `d` calls to spare, a call ends
within `(n + 1) ^ d - 1` steps, whatever functions call each other.
-/

namespace Scriptlet

variable {α β : Type}

/-! ### Sizes -/

mutual

/-- The number of nodes of an expression. -/
def Expr.size : Expr α → Nat
  | .var .. | .bool .. | .number .. | .text .. => 1
  | .array _ elements => Expr.sizeList elements + 1
  | .binary _ _ left right => left.size + right.size + 1
  | .call _ _ args => Expr.sizeList args + 1
  | .index _ object place => object.size + place.size + 1
  | .member _ object _ => object.size + 1
  | .method _ object _ args => object.size + Expr.sizeList args + 1

/-- The number of nodes of expressions. -/
def Expr.sizeList : List (Expr α) → Nat
  | [] => 0
  | e :: es => e.size + Expr.sizeList es

end

/-- The number of nodes of a clause. -/
def Clause.size : Clause α → Nat
  | .assign _ _ value | .ret _ value => value.size + 1

/-- The number of nodes of a body. -/
def bodySize : List (Clause α) → Nat
  | [] => 0
  | c :: cs => c.size + bodySize cs

/-- The number of nodes in the body of a function. -/
def Func.size (f : Func α) : Nat := bodySize f.body

/-- The number of nodes of a statement that are there to be run; the body of a function waits for
its calls. -/
def Stmt.size : Stmt α → Nat
  | .clause c => c.size
  | .func _ _ => 1
  | .cond _ condition body | .loop _ condition body => condition.size + bodySize body + 1

/-- The number of nodes of statements that are there to be run. -/
def sizeOfStatements : List (Stmt α) → Nat
  | [] => 0
  | s :: ss => s.size + sizeOfStatements ss

/-- The function that a statement defines. -/
def Stmt.defined? : Stmt α → Option (Func α)
  | .func _ f => some f
  | _ => none

/-- The size of the largest function that is there when statements begin to run or that they
define. -/
def largestBody (known : Table (Func α)) (ss : List (Stmt α)) : Nat :=
  ((known.entries.map Prod.snd ++ ss.filterMap Stmt.defined?).map Func.size).foldr max 0

/-- No function of a table is larger than `n`. -/
def Table.Within (n : Nat) (t : Table (Func α)) : Prop :=
  ∀ name f, t.get? name = some f → f.size ≤ n

/-- No body is larger than the largest one. -/
theorem within_largestBody (known : Table (Func α)) (ss : List (Stmt α)) :
    known.Within (largestBody known ss) := by
  intro name f hf
  have hmem : f ∈ known.entries.map Prod.snd :=
    List.mem_map_of_mem (Table.mem_entries_of_find? hf)
  exact List.le_max_of_le (List.mem_map_of_mem (List.mem_append_left _ hmem)) le_rfl

theorem size_le_largestBody {known : Table (Func α)} {ss : List (Stmt α)} {name : Bytes}
    {f : Func α} (h : .func name f ∈ ss) : f.size ≤ largestBody known ss := by
  have hmem : f ∈ ss.filterMap Stmt.defined? := List.mem_filterMap.2 ⟨_, h, rfl⟩
  exact List.le_max_of_le (List.mem_map_of_mem (List.mem_append_right _ hmem)) le_rfl

/-! ### Evaluations that end -/

/-- **An evaluation ends within `k` steps.** -/
structure Ends (k : Nat) (x : Eval α) : Prop where
  steps : ∀ m : Meter, (x m).meter.steps ≤ m.steps + k
  finished : ∀ m n : Meter, x m ≠ .stopped .unfinished n

namespace Ends

variable {j k : Nat} {x : Eval α} {f : α → Eval β}

theorem mono (hx : Ends j x) (h : j ≤ k) : Ends k x :=
  ⟨fun m => (hx.steps m).trans (Nat.add_le_add_left h _), hx.finished⟩

protected theorem pure (a : α) : Ends 0 (pure a : Eval α) :=
  ⟨fun _ => Nat.le_refl _, fun _ _ h => by cases h⟩

/-- The second evaluation has to end only after results that the first one has. -/
theorem bind_of_done (hx : Ends j x) (hf : ∀ m a n, x m = .done a n → Ends k (f a)) :
    Ends (j + k) (x >>= f) := by
  refine ⟨fun m => ?_, fun m n => ?_⟩
  · have hsteps := hx.steps m
    rcases hm : x m with ⟨a, m'⟩ | ⟨s, m'⟩
    · rw [hm, Outcome.meter] at hsteps
      have hmore := (hf m a m' hm).steps m'
      rw [Eval.bind_of_done hm]
      omega
    · rw [hm, Outcome.meter] at hsteps
      rw [Eval.bind_of_stopped hm, Outcome.meter]
      omega
  · rcases hm : x m with ⟨a, m'⟩ | ⟨s, m'⟩
    · rw [Eval.bind_of_done hm]
      exact (hf m a m' hm).finished m' n
    · rw [Eval.bind_of_stopped hm]
      intro hstop
      cases hstop
      exact hx.finished m _ hm

/-- One evaluation after another takes the steps of both. -/
protected theorem bind (hx : Ends j x) (hf : ∀ a, Ends k (f a)) : Ends (j + k) (x >>= f) :=
  hx.bind_of_done fun _ a _ _ => hf a

variable (ctx : Context)

theorem fail (fault : Fault) (position : Position) :
    Ends 0 (ctx.fail fault position : Eval α) :=
  ⟨fun _ => Nat.le_refl _, fun _ _ h => by cases h⟩

theorem lift (position : Position) (r : Except Fault Value) : Ends 0 (ctx.lift position r) := by
  cases r with
  | ok v => exact .pure v
  | error fault => exact .fail ctx fault position

theorem step : Ends 1 ctx.step := by
  refine ⟨fun m => ?_, fun m n => ?_⟩
  · dsimp only [Context.step]
    split_ifs <;> exact Nat.le_refl _
  · dsimp only [Context.step]
    split_ifs <;> exact fun h => by cases h

theorem noteCall (record : CallRecord) : Ends 0 (noteCall record) :=
  ⟨fun _ => Nat.le_refl _, fun _ _ h => by cases h⟩

end Ends

/-! ### Expressions and bodies -/

section Bodies

variable {caller : Caller} {ctx : Context} {k : Nat}

theorem ends_evaluateList_of_forall {vars : Bindings} {es : List (Expr Position)}
    (h : ∀ e ∈ es, Ends (e.size * (k + 1)) (evaluate caller ctx vars e)) :
    Ends (Expr.sizeList es * (k + 1)) (evaluateList caller ctx vars es) := by
  induction es with
  | nil =>
    rw [evaluateList]
    exact (Ends.pure _).mono (Nat.zero_le _)
  | cons e es ih =>
    rw [evaluateList]
    have hes := ih fun x hx => h x (List.mem_cons_of_mem _ hx)
    refine ((h e List.mem_cons_self).bind fun v => hes.bind fun vs => .pure _).mono ?_
    exact (Nat.add_mul _ _ _).ge

variable
  (hcall : ∀ name site f vs, ctx.functions.get? name = some f → Ends k (caller name site f vs))

include hcall

/-- **An expression ends within one step for each of its nodes**, apart from its calls. -/
theorem ends_evaluate (vars : Bindings) (e : Expr Position) :
    Ends (e.size * (k + 1)) (evaluate caller ctx vars e) := by
  induction e with
  | var mark name =>
    rw [evaluate]
    refine ((Ends.step ctx).bind (k := 0) fun _ => ?_).mono (by rw [Expr.size]; omega)
    split
    · exact .pure _
    · exact .fail ctx _ _
  | bool | number | text =>
    rw [evaluate]
    exact ((Ends.step ctx).bind fun _ => .pure _).mono (by rw [Expr.size]; omega)
  | array mark elements ih =>
    rw [evaluate]
    refine ((Ends.step ctx).bind fun _ =>
      (ends_evaluateList_of_forall ih).bind fun vs => .pure _).mono ?_
    simp only [Expr.size, Nat.add_mul, Nat.one_mul]
    omega
  | binary mark op left right ihl ihr =>
    rw [evaluate]
    refine ((Ends.step ctx).bind fun _ => ihl.bind fun v => ihr.bind fun w =>
      .lift ctx mark _).mono ?_
    simp only [Expr.size, Nat.add_mul, Nat.one_mul]
    omega
  | call mark name args ih =>
    rw [evaluate]
    -- one step for the call, those of its arguments, and the `k` of the body
    refine ((Ends.step ctx).bind (k := Expr.sizeList args * (k + 1) + k) fun _ => ?_).mono ?_
    · split
      · exact (Ends.fail ctx _ _).mono (Nat.zero_le _)
      · rename_i f hf
        split
        · exact (ends_evaluateList_of_forall ih).bind fun vs => hcall name mark f vs hf
        · exact (Ends.fail ctx _ _).mono (Nat.zero_le _)
    · simp only [Expr.size, Nat.add_mul, Nat.one_mul]
      omega
  | index mark object place iho ihp =>
    rw [evaluate]
    refine ((Ends.step ctx).bind fun _ => iho.bind fun v => ihp.bind (k := 0) fun w => ?_).mono ?_
    · split
      · exact .pure _
      · exact .fail ctx _ _
      · exact .fail ctx _ _
    · simp only [Expr.size, Nat.add_mul, Nat.one_mul]
      omega
  | member mark object property iho =>
    rw [evaluate]
    refine ((Ends.step ctx).bind fun _ => iho.bind fun v => .lift ctx mark _).mono ?_
    simp only [Expr.size, Nat.add_mul, Nat.one_mul]
    omega
  | method mark object name args iho ih =>
    rw [evaluate]
    refine ((Ends.step ctx).bind fun _ => iho.bind fun v =>
      (ends_evaluateList_of_forall ih).bind fun ws => .lift ctx mark _).mono ?_
    simp only [Expr.size, Nat.add_mul, Nat.one_mul]
    omega

theorem ends_runBody (body : List (Clause Position)) (vars : Bindings) :
    Ends (bodySize body * (k + 1)) (runBody caller ctx body vars) := by
  induction body generalizing vars with
  | nil =>
    rw [runBody]
    exact (Ends.pure _).mono (Nat.zero_le _)
  | cons c body ih =>
    cases c with
    | assign mark name value =>
      rw [runBody]
      refine ((Ends.step ctx).bind fun _ => (ends_evaluate hcall vars value).bind fun v =>
        ih _).mono ?_
      simp only [bodySize, Clause.size, Nat.add_mul, Nat.one_mul]
      omega
    | ret mark value =>
      rw [runBody]
      refine ((Ends.step ctx).bind (k := value.size * (k + 1)) fun _ => ?_).mono ?_
      · split
        · exact (Ends.fail ctx _ _).mono (Nat.zero_le _)
        · exact (ends_evaluate hcall vars value).bind fun v => .pure _
      · simp only [bodySize, Clause.size, Nat.add_mul, Nat.one_mul]
        omega

end Bodies

/-! ### Calls -/

theorem Table.within_enter {ctx : Context} {n : Nat} (h : ctx.functions.Within n)
    (function : Bytes) (site : Position) : (ctx.enter function site).functions.Within n := by
  rw [Context.enter]
  split
  · exact fun name f hf => by cases hf
  · exact h

/-- **Calls end**, whatever they call: with `d` calls to spare and bodies of at most `n` nodes,
within `(n + 1) ^ d - 1` steps. -/
theorem ends_call {n d k : Nat} (hk : k + 1 = (n + 1) ^ d) {ctx : Context}
    (hctx : ctx.functions.Within n) (name : Bytes) (site : Position) {f : Func Position}
    (hf : f.size ≤ n) (args : List Value) : Ends k (call d ctx name site f args) := by
  induction d generalizing k ctx name site f args with
  | zero =>
    rw [call]
    exact (Ends.fail ctx _ _).mono (Nat.zero_le _)
  | succ d ih =>
    obtain ⟨j, hj⟩ : ∃ j, j + 1 = (n + 1) ^ d :=
      ⟨(n + 1) ^ d - 1, Nat.sub_add_cancel (Nat.one_le_pow _ _ (Nat.succ_pos n))⟩
    have hinside := Table.within_enter hctx name site
    have hbody : Ends (bodySize f.body * (j + 1)) (runBody (call d (ctx.enter name site))
        (ctx.enter name site) f.body (Table.empty.insertAll (f.params.zip args))) :=
      ends_runBody (fun name' site' g vs hg => ih hj hinside name' site' (hinside name' g hg) vs)
        f.body _
    rw [call]
    refine ((Ends.noteCall _).bind fun _ => hbody.bind (k := 0) fun r => ?_).mono ?_
    · rcases r with ⟨vars, _ | v⟩
      · exact .fail _ _ _
      · exact .pure _
    -- each node of the body takes one step and may make one call
    · have hle : f.size * (j + 1) ≤ n * (j + 1) := Nat.mul_le_mul_right _ hf
      rw [Nat.pow_succ, ← hj, Nat.mul_comm, Nat.add_mul, Nat.one_mul] at hk
      rw [Func.size] at hle
      omega

/-! ### Statements -/

section Statements

variable (settings : Settings) {w : World} {n : Nat} (hw : w.functions.Within n)

include hw

/-- On the top level all the calls that the limits allow are to spare. -/
theorem exists_ends_caller : ∃ k, k + 1 = (n + 1) ^ settings.limits.depth ∧
    ∀ name site f vs, (settings.context w).functions.get? name = some f →
      Ends k ((settings.context w).caller name site f vs) := by
  refine ⟨_, Nat.sub_add_cancel (Nat.one_le_pow _ _ (Nat.succ_pos n)), ?_⟩
  intro name site f vs hf
  exact ends_call (Nat.sub_add_cancel (Nat.one_le_pow _ _ (Nat.succ_pos n))) hw name site
    (hw name f hf) vs

/-- **A statement without a loop ends**, after a number of steps that is told by its size, the
largest body and the depth of calls. -/
theorem ends_runStatement (looper : Looper) {stmt : Stmt Position}
    (hloop : ∀ mark condition body, stmt ≠ .loop mark condition body) :
    Ends (stmt.size * (n + 1) ^ settings.limits.depth) (runStatement looper settings w stmt) := by
  obtain ⟨k, hk, hcall⟩ := exists_ends_caller settings hw
  rw [← hk]
  cases stmt with
  | clause c =>
    rw [runStatement]
    refine ((ends_runBody hcall [c] w.bindings).bind fun r => .pure _).mono ?_
    rw [Stmt.size, bodySize, bodySize, Nat.add_zero, Nat.add_zero]
  | func name f =>
    rw [runStatement]
    refine ((Ends.step _).bind fun _ => .pure _).mono ?_
    rw [Stmt.size]
    omega
  | cond mark condition body =>
    rw [runStatement]
    -- the condition is evaluated once, and only then one body may follow
    have hholds : Ends (condition.size * (k + 1))
        (holds (settings.context w) w.bindings .cond condition) := by
      refine (ends_evaluate hcall w.bindings condition).bind (k := 0) fun v => ?_
      split
      · exact .pure _
      · exact .fail _ _ _
    refine ((Ends.step _).bind fun _ =>
      hholds.bind (k := bodySize body * (k + 1)) fun b => ?_).mono ?_
    · split
      · exact (ends_runBody hcall body w.bindings).bind fun r => .pure _
      · exact (Ends.pure _).mono (Nat.zero_le _)
    · simp only [Stmt.size, Nat.add_mul, Nat.one_mul]
      omega
  | loop mark condition body => exact absurd rfl (hloop mark condition body)

end Statements

/-- **Statements without loops end.** -/
theorem ends_runStatements (looper : Looper) (settings : Settings) {w : World} {n : Nat}
    {ss : List (Stmt Position)} (hw : w.functions.Within n)
    (hbodies : ∀ name f, .func name f ∈ ss → f.size ≤ n)
    (hloop : ∀ mark condition body, .loop mark condition body ∉ ss) :
    Ends (sizeOfStatements ss * (n + 1) ^ settings.limits.depth)
      (runStatements looper settings w ss) := by
  induction ss generalizing w with
  | nil =>
    rw [runStatements]
    exact (Ends.pure _).mono (Nat.zero_le _)
  | cons stmt ss ih =>
    rw [runStatements, sizeOfStatements, Nat.add_mul]
    refine (ends_runStatement settings hw looper fun mark condition body h => ?_).bind_of_done
      fun m w' m' h => ?_
    · exact hloop mark condition body (h ▸ List.mem_cons_self)
    · refine ih (fun name f hf => ?_) (fun name f hf => ?_) fun mark condition body hmem => ?_
      · rw [functions_of_runStatement h] at hf
        rcases get?_define hf with hf | rfl
        · exact hw name f hf
        · exact hbodies name f List.mem_cons_self
      · exact hbodies name f (List.mem_cons_of_mem _ hf)
      · exact hloop mark condition body (List.mem_cons_of_mem _ hmem)

/-! ### Whole runs -/

theorem finished_of_stepCount_ne_top {run : Run} (h : run.stepCount ≠ ⊤) :
    run.result ≠ .error .unfinished := by
  intro hresult
  rw [Run.stepCount, hresult] at h
  exact h rfl

/-- A run with a quota is over at the first step beyond it. -/
theorem run_within_quota (s : Settings) (w : World) (script : Script) {q : Nat}
    (hq : s.limits.quota = some q) :
    (runScript s w script).result ≠ .error .unfinished ∧
      (runScript s w script).meter.steps ≤ q + 1 := by
  have hle : s.horizon ≤ ((q + 1 : ℕ) : ℕ∞) := by
    rw [Settings.horizon, hq]
    exact min_le_left _ _
  obtain ⟨k, hk⟩ := ENat.ne_top_iff_exists.1 (ne_top_of_le_ne_top (ENat.natCast_ne_top _) hle)
  rw [← hk, Nat.cast_le] at hle
  -- either the run is over before the horizon, or it is interrupted there
  rcases run_eq_or_interrupted s w script hk.symm with ⟨hlt, heq⟩ | ⟨-, hrun⟩
  · rw [← heq, ← hk] at hlt
    refine ⟨finished_of_stepCount_ne_top (ne_top_of_lt hlt), ?_⟩
    have hsteps : ((runScript s w script).meter.steps : ℕ∞) < (k : ℕ∞) :=
      (Run.steps_le_stepCount _).trans_lt hlt
    have hsteps' : (runScript s w script).meter.steps < k := by exact_mod_cast hsteps
    omega
  · have hsteps : (runScript s w script).meter.steps = k := by
      exact_mod_cast hrun.steps.trans hk.symm
    refine ⟨fun hresult => ?_, by omega⟩
    obtain ⟨stop, hstop, hreason⟩ := hrun.result
    obtain rfl : stop = .unfinished := Except.error.inj (hstop.symm.trans hresult)
    rcases le_or_gt (bound s.limits.quota + 1) (max 1 (bound s.cancelAt)) with h | h
    · obtain ⟨_, _, -, hfailed⟩ := hreason.quota h
      cases hfailed
    · cases hreason.cancelled h

/-- A run whose statements end comes to an end. -/
theorem run_of_ends {s : Settings} {w : World} {script : Script} {k : Nat}
    (h : Ends k (runStatements loop s w script.statements)) :
    (runScript s w script).result ≠ .error .unfinished ∧
      (runScript s w script).meter.steps ≤ k := by
  have hsteps := h.steps ⟨0, []⟩
  have hfinished := h.finished ⟨0, []⟩
  rw [runScript_eq_run, Outcome.meter_run]
  refine ⟨?_, by simpa using hsteps⟩
  rcases ho : runStatements loop s w script.statements ⟨0, []⟩ with ⟨v, n⟩ | ⟨stop, n⟩
  · exact fun hresult => by cases hresult
  · intro hresult
    cases hresult
    exact hfinished n ho

theorem depth_ofRequest_pos (steps depth : Int) (isolated : Bool) :
    0 < (Limits.ofRequest steps depth isolated).depth := by
  dsimp only [Limits.ofRequest]
  split
  · omega
  · decide

/-- **Runs end.** Whatever a user asks for, only so many calls may be open at once, and at least
one. With a positive quota a run is over after at most one step more than the quota. And a script
without loops is over even when there is none, from whatever world it starts: if it has `n` nodes
and the largest body that it can call has `b`, after at most `n * (b + 1) ^ d` steps, where `d` is
how many calls may be open. -/
theorem run_ends (steps depth : Int) (isolated : Bool) (cancelAt : Option Nat) (w : World)
    (script : Script) :
    let limits := Limits.ofRequest steps depth isolated
    let run := runScript ⟨limits, cancelAt⟩ w script
    0 < limits.depth ∧
    (0 < steps → run.result ≠ .error .unfinished ∧ (run.meter.steps : Int) ≤ steps + 1) ∧
    ((∀ mark condition body, .loop mark condition body ∉ script.statements) →
      run.result ≠ .error .unfinished ∧
      run.meter.steps ≤ sizeOfStatements script.statements *
        (largestBody w.functions script.statements + 1) ^ limits.depth) := by
  intro limits run
  refine ⟨depth_ofRequest_pos steps depth isolated, fun hpos => ?_, fun hloop => ?_⟩
  · have hquota : limits.quota = some steps.toNat := if_pos hpos
    obtain ⟨hfinished, hsteps⟩ := run_within_quota ⟨limits, cancelAt⟩ w script hquota
    refine ⟨hfinished, ?_⟩
    have hle : (run.meter.steps : Int) ≤ (steps.toNat + 1 : ℕ) := Int.ofNat_le.2 hsteps
    omega
  · exact run_of_ends (ends_runStatements loop ⟨limits, cancelAt⟩
      (within_largestBody w.functions script.statements)
      (fun name f hf => size_le_largestBody hf) hloop)

/-- A script without loops whose function `f` calls itself for ever. -/
def selfCall : Script :=
  ⟨[], [.func [102] ⟨.none, [], [.ret .none (.call .none [102] [])]⟩,
    .clause (.assign .none [97] (.call .none [102] []))]⟩

/-- With at most four calls open it ends without a quota; and with a quota of five it ends after at
most six steps. -/
theorem run_ends_selfCall :
    (∀ mark condition body, .loop mark condition body ∉ selfCall.statements) ∧
    (runScript ⟨.ofRequest 0 4 false, none⟩ .empty selfCall).result ≠ .error .unfinished ∧
    (runScript ⟨.ofRequest 0 4 false, none⟩ .empty selfCall).meter.steps ≤ 3 * (2 + 1) ^ 4 ∧
    (runScript ⟨.ofRequest 5 0 false, none⟩ .empty selfCall).result ≠ .error .unfinished ∧
    ((runScript ⟨.ofRequest 5 0 false, none⟩ .empty selfCall).meter.steps : Int) ≤ 5 + 1 := by
  have hloop : ∀ mark condition body, .loop mark condition body ∉ selfCall.statements := by
    intro mark condition body hmem
    rcases hmem with _ | ⟨_, _ | ⟨_, ⟨⟩⟩⟩
  obtain ⟨-, -, hends⟩ := run_ends 0 4 false none .empty selfCall
  obtain ⟨-, hquota, -⟩ := run_ends 5 0 false none .empty selfCall
  obtain ⟨hfinished, hsteps⟩ := hends hloop
  obtain ⟨hfinished', hsteps'⟩ := hquota (by decide)
  exact ⟨hloop, hfinished, hsteps, hfinished', hsteps'⟩

end Scriptlet
