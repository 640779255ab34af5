import Scriptlet.Proofs.Running.Rounds
import Scriptlet.Proofs.Running.Stops

/-!
# One text in two surroundings

Two runs can also differ in what stands around the text that they evaluate, and not in the text: in
variables that the text does not mention, or in the functions that its calls find. Matching tables,
as runs in lockstep have them, are too much to ask for then.

A **congruence** is a relation between evaluations that allows results at no cost, one thing after
another, a step, and a failure. It gets through all of evaluation but for calls
(`Congruence.evaluate`, `Congruence.perform`), and where the two sides find different functions,
what becomes of a call has to be shown for the congruence at hand (`Congruence.Calls`). Equality is
a congruence; what it says is that the difference does not matter.

Variables count only where they are mentioned. An expression mentions finitely many, and the
variables of the functions that it calls are not among them.
-/

namespace Scriptlet

variable {α β : Type}

/-! ### Variables of an expression -/

mutual

/-- **The variables that occur in an expression.** -/
def Expr.variables : Expr α → List Bytes
  | .var _ name => [name]
  | .bool .. | .number .. | .text .. => []
  | .array _ elements => Expr.variablesList elements
  | .binary _ _ left right => left.variables ++ right.variables
  | .call _ _ args => Expr.variablesList args
  | .index _ object place => object.variables ++ place.variables
  | .member _ object _ => object.variables
  | .method _ object _ args => object.variables ++ Expr.variablesList args

/-- The variables that occur in expressions. -/
def Expr.variablesList : List (Expr α) → List Bytes
  | [] => []
  | e :: es => e.variables ++ Expr.variablesList es

end

/-- Two scopes agree on some names. -/
def AgreeOn (names : List Bytes) (vars vars' : Bindings) : Prop :=
  ∀ name ∈ names, vars.get? name = vars'.get? name

theorem AgreeOn.refl (names : List Bytes) (vars : Bindings) : AgreeOn names vars vars :=
  fun _ _ => rfl

theorem agreeOn_append_iff {l l' : List Bytes} {vars vars' : Bindings} :
    AgreeOn (l ++ l') vars vars' ↔ AgreeOn l vars vars' ∧ AgreeOn l' vars vars' :=
  List.forall_mem_append

/-! ### Contexts that are alike -/

/-- **Two contexts are alike** when they differ in the functions that can be called at most: steps
and failures are the same in both. -/
structure Context.Alike (ctx ctx' : Context) : Prop where
  quota : ctx.limits.quota = ctx'.limits.quota
  cancelAt : ctx.cancelAt = ctx'.cancelAt
  depth : ctx.limits.depth = ctx'.limits.depth
  calls : ctx.calls = ctx'.calls

namespace Context.Alike

variable {ctx ctx' : Context}

theorem refl (ctx : Context) : ctx.Alike ctx :=
  ⟨rfl, rfl, rfl, rfl⟩

theorem step_eq (h : ctx.Alike ctx') : ctx.step = ctx'.step := by
  funext m
  simp only [Context.step, h.quota, h.cancelAt, h.calls]

theorem fail_eq (h : ctx.Alike ctx') (fault : Fault) (position : Position) :
    (ctx.fail fault position : Eval α) = ctx'.fail fault position := by
  funext m
  simp only [Context.fail, h.calls]

theorem enter (h : ctx.Alike ctx') (function : Bytes) (site : Position) :
    (ctx.enter function site).Alike (ctx'.enter function site) where
  quota := h.quota
  cancelAt := h.cancelAt
  depth := h.depth
  calls := by rw [Context.enter, Context.enter, h.calls]

end Context.Alike

/-! ### Congruences -/

/-- **A congruence** of evaluations. -/
structure Congruence where
  /-- The relation. -/
  Rel {α : Type} (x y : Eval α) : Prop
  pure {α : Type} (a : α) : Rel (Eval.pure a) (Eval.pure a)
  bind {α β : Type} {x y : Eval α} {f g : α → Eval β} :
    Rel x y → (∀ a, Rel (f a) (g a)) → Rel (x >>= f) (y >>= g)
  step (ctx : Context) : Rel ctx.step ctx.step
  fail {α : Type} (ctx : Context) (fault : Fault) (position : Position) :
    Rel (ctx.fail fault position : Eval α) (ctx.fail fault position)

/-- Equality is a congruence. -/
def Congruence.equality : Congruence where
  Rel x y := x = y
  pure _ := rfl
  bind hxy hfg := by rw [hxy, funext hfg]
  step _ := rfl
  fail _ _ _ := rfl

/-- What becomes of a call whose arguments are computed in a certain way: the function is looked up
and its parameters are counted before that, and it is called after. -/
def callNamed (caller : Caller) (ctx : Context) (mark : Position) (name : Bytes) (count : Nat)
    (args : Eval (List Value)) : Eval Value :=
  match ctx.functions.get? name with
  | none => ctx.fail (.undefinedFunction name) mark
  | some f =>
    if count = f.params.length then args >>= caller name mark f
    else ctx.fail (.functionArity name f.params.length count) mark

theorem evaluate_call (caller : Caller) (ctx : Context) (vars : Bindings) (mark : Position)
    (name : Bytes) (args : List (Expr Position)) :
    evaluate caller ctx vars (.call mark name args) =
      ctx.step >>= fun _ =>
        callNamed caller ctx mark name args.length (evaluateList caller ctx vars args) := by
  rw [evaluate]
  rfl

namespace Congruence

variable (S : Congruence) {ctx ctx' : Context} {caller caller' : Caller}

theorem step_alike (h : ctx.Alike ctx') : S.Rel ctx.step ctx'.step :=
  h.step_eq ▸ S.step ctx

theorem fail_alike (h : ctx.Alike ctx') (fault : Fault) (position : Position) :
    S.Rel (ctx.fail fault position : Eval α) (ctx'.fail fault position) :=
  h.fail_eq (α := α) fault position ▸ S.fail ctx fault position

theorem lift_alike (h : ctx.Alike ctx') (position : Position) (o : Except Fault Value) :
    S.Rel (ctx.lift position o) (ctx'.lift position o) := by
  cases o with
  | ok v => exact S.pure v
  | error fault => exact S.fail_alike h fault position

/-- **Calls are related** as soon as their arguments are. -/
def Calls (caller caller' : Caller) (ctx ctx' : Context) : Prop :=
  ∀ (mark : Position) (name : Bytes) (count : Nat) {args args' : Eval (List Value)},
    S.Rel args args' →
      S.Rel (callNamed caller ctx mark name count args)
        (callNamed caller' ctx' mark name count args')

/-- Where both sides find the same functions, it is enough that making calls is related. -/
theorem calls_of_functions_eq (h : ctx.Alike ctx') (hfunctions : ctx.functions = ctx'.functions)
    (hcaller : ∀ name site f vs, S.Rel (caller name site f vs) (caller' name site f vs)) :
    S.Calls caller caller' ctx ctx' := by
  intro mark name count args args' hargs
  rw [callNamed, callNamed, hfunctions]
  split
  · exact S.fail_alike h _ mark
  · split
    · exact S.bind hargs fun vs => hcaller name mark _ vs
    · exact S.fail_alike h _ mark

/-! ### Expressions and bodies -/

section Expressions

variable {S}

theorem evaluateList_of_forall {vars vars' : Bindings} {es : List (Expr Position)}
    (h : ∀ e ∈ es, AgreeOn e.variables vars vars' →
      S.Rel (evaluate caller ctx vars e) (evaluate caller' ctx' vars' e))
    (hvars : AgreeOn (Expr.variablesList es) vars vars') :
    S.Rel (evaluateList caller ctx vars es) (evaluateList caller' ctx' vars' es) := by
  induction es with
  | nil => exact S.pure []
  | cons e es ih =>
    obtain ⟨he, hes⟩ := agreeOn_append_iff.1 hvars
    rw [evaluateList, evaluateList]
    refine S.bind (h e List.mem_cons_self he) fun v => ?_
    exact S.bind (ih (fun x hx => h x (List.mem_cons_of_mem e hx)) hes) fun vs => S.pure (v :: vs)

variable (halike : ctx.Alike ctx') (hcalls : S.Calls caller caller' ctx ctx')

include halike hcalls

/-- **Evaluating an expression respects a congruence**, in scopes that agree on its variables. -/
theorem evaluate {vars vars' : Bindings} (e : Expr Position)
    (hvars : AgreeOn e.variables vars vars') :
    S.Rel (evaluate caller ctx vars e) (evaluate caller' ctx' vars' e) := by
  induction e with
  | var mark name =>
    rw [Scriptlet.evaluate, Scriptlet.evaluate, hvars name List.mem_cons_self]
    refine S.bind (S.step_alike halike) fun _ => ?_
    split
    · exact S.pure _
    · exact S.fail_alike halike _ mark
  | bool | number | text =>
    rw [Scriptlet.evaluate, Scriptlet.evaluate]
    exact S.bind (S.step_alike halike) fun _ => S.pure _
  | array mark elements ih =>
    rw [Scriptlet.evaluate, Scriptlet.evaluate]
    refine S.bind (S.step_alike halike) fun _ => ?_
    exact S.bind (evaluateList_of_forall ih hvars) fun vs => S.pure _
  | binary mark op left right ihl ihr =>
    obtain ⟨hl, hr⟩ := agreeOn_append_iff.1 hvars
    rw [Scriptlet.evaluate, Scriptlet.evaluate]
    refine S.bind (S.step_alike halike) fun _ => ?_
    exact S.bind (ihl hl) fun v => S.bind (ihr hr) fun w => S.lift_alike halike mark _
  | call mark name args ih =>
    -- what a call does is left to the congruence
    rw [evaluate_call, evaluate_call]
    refine S.bind (S.step_alike halike) fun _ => ?_
    exact hcalls mark name args.length (evaluateList_of_forall ih hvars)
  | index mark object place iho ihp =>
    obtain ⟨ho, hp⟩ := agreeOn_append_iff.1 hvars
    rw [Scriptlet.evaluate, Scriptlet.evaluate]
    refine S.bind (S.step_alike halike) fun _ => ?_
    refine S.bind (iho ho) fun v => S.bind (ihp hp) fun w => ?_
    split
    · exact S.pure _
    · exact S.fail_alike halike _ object.mark
    · exact S.fail_alike halike _ place.mark
  | member mark object property iho =>
    rw [Scriptlet.evaluate, Scriptlet.evaluate]
    refine S.bind (S.step_alike halike) fun _ => ?_
    exact S.bind (iho hvars) fun v => S.lift_alike halike mark _
  | method mark object name args iho ih =>
    obtain ⟨ho, hargs⟩ := agreeOn_append_iff.1 hvars
    rw [Scriptlet.evaluate, Scriptlet.evaluate]
    refine S.bind (S.step_alike halike) fun _ => S.bind (iho ho) fun v => ?_
    exact S.bind (evaluateList_of_forall ih hargs) fun ws => S.lift_alike halike mark _

theorem runBody (body : List (Clause Position)) (vars : Bindings) :
    S.Rel (runBody caller ctx body vars) (runBody caller' ctx' body vars) := by
  induction body generalizing vars with
  | nil => exact S.pure (vars, none)
  | cons c body ih =>
    cases c with
    | assign mark name value =>
      rw [Scriptlet.runBody, Scriptlet.runBody]
      refine S.bind (S.step_alike halike) fun _ => ?_
      exact S.bind (evaluate halike hcalls value (.refl _ vars)) fun v => ih _
    | ret mark value =>
      rw [Scriptlet.runBody, Scriptlet.runBody, halike.calls]
      refine S.bind (S.step_alike halike) fun _ => ?_
      split
      · exact S.fail_alike halike _ mark
      · exact S.bind (evaluate halike hcalls value (.refl _ vars)) fun v => S.pure _

end Expressions

/-- **Calling a function respects a congruence** as soon as the notes that are taken of calls do. -/
theorem call {S : Congruence} (hnote : ∀ record, S.Rel (noteCall record) (noteCall record))
    (depth : Nat) (ctx : Context) (name : Bytes) (site : Position) (f : Func Position)
    (vs : List Value) :
    S.Rel (call depth ctx name site f vs) (call depth ctx name site f vs) := by
  induction depth generalizing ctx name site f vs with
  | zero => exact S.fail ctx _ site
  | succ depth ih =>
    have halike := Context.Alike.refl (ctx.enter name site)
    have hcalls := S.calls_of_functions_eq halike rfl (ih (ctx.enter name site))
    refine S.bind (hnote _) fun _ => S.bind (runBody halike hcalls f.body _) fun p => ?_
    rcases p with ⟨vars, _ | v⟩
    · exact S.fail _ _ f.mark
    · exact S.pure v

/-! ### Statements -/

section Statements

variable {S} (halike : ctx.Alike ctx') (hcalls : S.Calls ctx.caller ctx'.caller ctx ctx')

include halike hcalls

theorem holds (vars : Bindings) (construct : Construct) (condition : Expr Position) :
    S.Rel (holds ctx vars construct condition) (holds ctx' vars construct condition) := by
  refine S.bind (evaluate halike hcalls condition (.refl _ vars)) fun v => ?_
  split
  · exact S.pure _
  · exact S.fail_alike halike _ condition.mark

/-- One round of a loop respects a congruence. -/
theorem round (condition : Expr Position) (body : List (Clause Position)) (vars : Bindings) :
    S.Rel (round ctx condition body vars) (round ctx' condition body vars) := by
  refine S.bind (holds halike hcalls vars .loop condition) fun b => ?_
  cases b with
  | false => exact S.pure none
  | true => exact S.bind (runBody halike hcalls body vars) fun p => S.pure (some p.1)

omit halike hcalls in
/-- A loop that is cut off respects a congruence as soon as its rounds do, and cutting it off. -/
theorem loopUpTo {condition : Expr Position} {body : List (Clause Position)}
    (hcut : ∀ vars, S.Rel (Scriptlet.loopUpTo 0 ctx condition body vars)
      (Scriptlet.loopUpTo 0 ctx' condition body vars))
    (hround : ∀ vars, S.Rel (Scriptlet.round ctx condition body vars)
      (Scriptlet.round ctx' condition body vars)) (rounds : Nat) (vars : Bindings) :
    S.Rel (Scriptlet.loopUpTo rounds ctx condition body vars)
      (Scriptlet.loopUpTo rounds ctx' condition body vars) := by
  induction rounds generalizing vars with
  | zero => exact hcut vars
  | succ rounds ih =>
    refine S.bind (hround vars) fun r => ?_
    cases r with
    | none => exact S.pure vars
    | some vars => exact ih vars

end Statements

end Congruence

/-- The variables after a statement of the top level. -/
def Stmt.perform (looper : Looper) (ctx : Context) (vars : Bindings) :
    Stmt Position → Eval Bindings
  | .clause c => do
    let (vars, _) ← runBody ctx.caller ctx [c] vars
    pure vars
  | .func _ _ => do
    ctx.step
    pure vars
  | .cond _ condition body => do
    ctx.step
    let b ← holds ctx vars .cond condition
    if b then do
      let (vars, _) ← runBody ctx.caller ctx body vars
      pure vars
    else pure vars
  | .loop _ condition body => do
    ctx.step
    looper ctx condition body vars

/-- **A statement changes variables as it runs, and functions as it is written.** -/
theorem runStatement_eq (looper : Looper) (settings : Settings) (w : World)
    (stmt : Stmt Position) :
    runStatement looper settings w stmt =
      stmt.perform looper (settings.context w) w.bindings >>= fun vars =>
        pure ⟨vars, stmt.define w.functions⟩ := by
  cases stmt with
  | clause c =>
    rw [runStatement, Stmt.perform, Eval.bind_assoc]
    rfl
  | func name f =>
    rw [runStatement, Stmt.perform, Eval.bind_assoc]
    rfl
  | cond mark condition body =>
    rw [runStatement, Stmt.perform, Eval.bind_assoc]
    simp only [Eval.bind_assoc]
    congr 1
    funext _
    congr 1
    funext b
    cases b with
    | false => rfl
    | true => simp only [if_true, Eval.bind_assoc]; rfl
  | loop mark condition body =>
    rw [runStatement, Stmt.perform, Eval.bind_assoc]
    rfl

/-- What a statement does respects a congruence, as soon as loops do. -/
theorem Congruence.perform {S : Congruence} {ctx ctx' : Context} (halike : ctx.Alike ctx')
    (hcalls : S.Calls ctx.caller ctx'.caller ctx ctx') {looper looper' : Looper}
    (hlooper : ∀ condition body vars,
      S.Rel (looper ctx condition body vars) (looper' ctx' condition body vars))
    (vars : Bindings) (stmt : Stmt Position) :
    S.Rel (stmt.perform looper ctx vars) (stmt.perform looper' ctx' vars) := by
  cases stmt with
  | clause c => exact S.bind (runBody halike hcalls [c] vars) fun p => S.pure p.1
  | func name f => exact S.bind (S.step_alike halike) fun _ => S.pure vars
  | cond mark condition body =>
    refine S.bind (S.step_alike halike) fun _ => ?_
    refine S.bind (holds halike hcalls vars .cond condition) fun b => ?_
    cases b with
    | false => exact S.pure vars
    | true => exact S.bind (runBody halike hcalls body vars) fun p => S.pure p.1
  | loop mark condition body =>
    exact S.bind (S.step_alike halike) fun _ => hlooper condition body vars

end Scriptlet
