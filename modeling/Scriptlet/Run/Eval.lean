import Scriptlet.Run.Iteration
import Scriptlet.Run.Limits
import Scriptlet.Run.Operation

/-!
# Running scripts

Evaluation is strict and goes from left to right; both operands of a logical operator are
always evaluated. Every statement and every expression first takes a **step**, and a step is
where a run can be interrupted: by its quota, or from outside.

## How the recursion ends

Three things can go on for long, and each has its own bound.

* Expressions are finite, and evaluating one is a recursion on the expression.
* Calls can nest, but only as deep as the limits allow. What a call does is a recursion on the
  depth that is left (`call`), and evaluation takes as an argument what to do with a call
  (`Caller`), so it never refers to itself through a name.
* Loops stand on the top level only. They are the one place where a run may fail to end, and so
  the one iteration without a bound (`loop?`). A loop that goes on for good has no outcome
  there, and the run that holds it is `unfinished`, which is neither a result nor a fault. As with
  calls, running a statement takes as an argument what to do with a
  loop (`Looper`).

Whatever happens, the steps taken and the calls made so far are part of the answer.
-/

namespace Scriptlet

/-- A call that was made: the function, and how many calls were then open. -/
structure CallRecord where
  /-- The function called. -/
  function : Bytes
  /-- The number of open calls, this one included. -/
  depth : Nat
  deriving DecidableEq, Repr

/-- What a run has used so far. -/
structure Meter where
  /-- The number of steps taken. -/
  steps : Nat
  /-- The calls made, latest first. -/
  calls : List CallRecord
  deriving DecidableEq, Repr

/-- Why a run stopped early. -/
inductive Stop where
  /-- Something went wrong. -/
  | failed (failure : Failure)
  /-- The run was interrupted from outside. -/
  | cancelled
  /-- A loop goes on for good. -/
  | unfinished
  deriving DecidableEq

/-- What comes of an evaluation, with the meter after it. -/
inductive Outcome (α : Type) where
  /-- It ended with a result. -/
  | done (a : α) (m : Meter)
  /-- It stopped. -/
  | stopped (s : Stop) (m : Meter)

/-- An evaluation: it starts with a meter and ends with one. -/
def Eval (α : Type) : Type :=
  Meter → Outcome α

namespace Eval

variable {α β : Type}

/-- A result at no cost. -/
@[inline] protected def pure (a : α) : Eval α := fun m =>
  .done a m

/-- One evaluation, then another that depends on its result. -/
@[inline] protected def bind (x : Eval α) (f : α → Eval β) : Eval β := fun m =>
  match x m with
  | .done a m => f a m
  | .stopped s m => .stopped s m

instance : Monad Eval where
  pure := Eval.pure
  bind := Eval.bind

theorem bind_of_done {x : Eval α} {m n : Meter} {a : α} (h : x m = .done a n) (f : α → Eval β) :
    (x >>= f) m = f a n := by
  simp only [Bind.bind, Eval.bind, h]

theorem bind_of_stopped {x : Eval α} {m n : Meter} {s : Stop} (h : x m = .stopped s n)
    (f : α → Eval β) : (x >>= f) m = .stopped s n := by
  simp only [Bind.bind, Eval.bind, h]

protected theorem bind_assoc {γ : Type} (x : Eval α) (f : α → Eval β) (g : β → Eval γ) :
    x >>= f >>= g = x >>= fun a => f a >>= g := by
  funext m
  rcases hx : x m with ⟨a, n⟩ | ⟨s, n⟩
  · rw [bind_of_done hx]
    simp only [Bind.bind, Eval.bind, hx]
  · rw [bind_of_stopped hx, bind_of_stopped (bind_of_stopped hx f)]

theorem bind_eq_done_iff {x : Eval α} {f : α → Eval β} {m n : Meter} {b : β} :
    (x >>= f) m = .done b n ↔ ∃ a m', x m = .done a m' ∧ f a m' = .done b n := by
  rcases hx : x m with ⟨a, m'⟩ | ⟨s, m'⟩
  · rw [bind_of_done hx]
    exact ⟨fun h => ⟨a, m', rfl, h⟩, fun ⟨_, _, h, hf⟩ => by cases h; exact hf⟩
  · rw [bind_of_stopped hx]
    exact ⟨fun h => (by cases h), fun ⟨_, _, h, _⟩ => (by cases h)⟩

end Eval

/-- What an evaluation can see besides variables. -/
structure Context where
  /-- The limits of the run. -/
  limits : Limits
  /-- The step at which the run is interrupted from outside, if it is. -/
  cancelAt : Option Nat
  /-- The functions that can be called. -/
  functions : Table (Func Position)
  /-- The calls that are open, innermost first. -/
  calls : List Frame

namespace Context

/-- Stops with a fault at a position. -/
def fail {α : Type} (ctx : Context) (fault : Fault) (position : Position) : Eval α := fun m =>
  .stopped (.failed ⟨fault, position, ctx.calls⟩) m

/-- The result of an operation on values, whose fault is reported at a position. -/
def lift (ctx : Context) (position : Position) : Except Fault Value → Eval Value
  | .ok v => Eval.pure v
  | .error fault => ctx.fail fault position

/-- Whether a quota allows `n` steps. -/
def withinQuota (quota : Option Nat) (n : Nat) : Bool :=
  match quota with
  | some q => n ≤ q
  | none => true

/-- Whether a run is interrupted from outside at its step `n`. -/
def isCancelled (cancelAt : Option Nat) (n : Nat) : Bool :=
  match cancelAt with
  | some c => c ≤ n
  | none => false

/-- **One step.** The quota is checked first, then the interruption from outside. -/
def step (ctx : Context) : Eval Unit := fun m =>
  let m : Meter := { m with steps := m.steps + 1 }
  if withinQuota ctx.limits.quota m.steps then
    if isCancelled ctx.cancelAt m.steps then .stopped .cancelled m else .done () m
  else
    .stopped (.failed ⟨.tooManySteps (ctx.limits.quota.getD 0), .none, ctx.calls⟩) m

/-- The context inside a call. -/
def enter (ctx : Context) (function : Bytes) (site : Position) : Context :=
  { ctx with
    functions := if ctx.limits.isolated then .empty else ctx.functions
    calls := ⟨function, site⟩ :: ctx.calls }

end Context

/-- Notes that a call was made. -/
def noteCall (record : CallRecord) : Eval Unit := fun m =>
  .done () { m with calls := record :: m.calls }

/-- What to do with the call of a function: its name, the position of the call, the function,
and the values of its arguments. -/
abbrev Caller := Bytes → Position → Func Position → List Value → Eval Value

/-! ### Expressions -/

mutual

/-- **The value of an expression**, for a way to make calls, a context, and variables. -/
def evaluate (caller : Caller) (ctx : Context) (vars : Bindings) :
    Expr Position → Eval Value
  | .var mark name => do
    ctx.step
    match vars.get? name with
    | some v => pure v
    | none => ctx.fail (.undefinedVariable name) mark
  | .bool _ b => do
    ctx.step
    pure (.bool b)
  | .number _ x => do
    ctx.step
    pure (.number x)
  | .text _ s => do
    ctx.step
    pure (.text (Bytes.pack s))
  | .array _ elements => do
    ctx.step
    let vs ← evaluateList caller ctx vars elements
    pure (.array vs)
  | .binary mark op left right => do
    ctx.step
    let v ← evaluate caller ctx vars left
    let w ← evaluate caller ctx vars right
    ctx.lift mark (v.combine op w)
  | .call mark name args => do
    ctx.step
    match ctx.functions.get? name with
    | none => ctx.fail (.undefinedFunction name) mark
    | some f =>
      if args.length = f.params.length then do
        let vs ← evaluateList caller ctx vars args
        caller name mark f vs
      else ctx.fail (.functionArity name f.params.length args.length) mark
  | .index _ object place => do
    ctx.step
    let v ← evaluate caller ctx vars object
    let w ← evaluate caller ctx vars place
    match v.at? w with
    | .ok r => pure r
    | .error (.object fault) => ctx.fail fault object.mark
    | .error (.place fault) => ctx.fail fault place.mark
  | .member mark object property => do
    ctx.step
    let v ← evaluate caller ctx vars object
    ctx.lift mark (v.member property)
  | .method mark object name args => do
    ctx.step
    let v ← evaluate caller ctx vars object
    let ws ← evaluateList caller ctx vars args
    ctx.lift mark (v.method name ws)

/-- The values of expressions, from left to right. -/
def evaluateList (caller : Caller) (ctx : Context) (vars : Bindings) :
    List (Expr Position) → Eval (List Value)
  | [] => pure []
  | e :: es => do
    let v ← evaluate caller ctx vars e
    let vs ← evaluateList caller ctx vars es
    pure (v :: vs)

end

/-! ### Bodies and calls -/

/-- Runs the clauses of a body: the variables after it, and the value returned if one is. A
return outside of functions fails before its value is computed. -/
def runBody (caller : Caller) (ctx : Context) :
    List (Clause Position) → Bindings → Eval (Bindings × Option Value)
  | [], vars => pure (vars, none)
  | .assign _ name value :: clauses, vars => do
    ctx.step
    let v ← evaluate caller ctx vars value
    runBody caller ctx clauses (vars.insert name v)
  | .ret mark value :: _, vars => do
    ctx.step
    if ctx.calls.isEmpty then ctx.fail .returnOutside mark
    else do
      let v ← evaluate caller ctx vars value
      pure (vars, some v)

/-- **Calls a function** when at most `depth` further calls may be opened, all others that the
limits allow being open already. Its body starts with the parameters alone, and must return a
value. -/
def call : (depth : Nat) → Context → Caller
  | 0, ctx, _, site, _, _ => ctx.fail (.tooDeep ctx.limits.depth) site
  | depth + 1, ctx, name, site, f, args => do
    let inside := ctx.enter name site
    noteCall ⟨name, ctx.limits.depth - depth⟩
    let (_, returned) ← runBody (call depth inside) inside f.body
      (Table.empty.insertAll (f.params.zip args))
    match returned with
    | some v => pure v
    | none => inside.fail (.noReturn name) f.mark

/-! ### Statements -/

/-- The variables and functions of the top level. -/
structure World where
  /-- The variables. -/
  bindings : Bindings
  /-- The functions. -/
  functions : Table (Func Position)

instance : Inhabited World := ⟨⟨.empty, .empty⟩⟩

/-- No variables and no functions. -/
def World.empty : World := ⟨.empty, .empty⟩

/-- The settings of a run: its limits, and when it is interrupted from outside. -/
structure Settings where
  /-- The limits of the run. -/
  limits : Limits
  /-- The step at which the run is interrupted from outside, if it is. -/
  cancelAt : Option Nat

/-- The context of the top level. -/
def Settings.context (s : Settings) (w : World) : Context :=
  ⟨s.limits, s.cancelAt, w.functions, []⟩

/-- The way calls are made on the top level. -/
def Context.caller (ctx : Context) : Caller :=
  call ctx.limits.depth ctx

/-- Whether a condition holds. -/
def holds (ctx : Context) (vars : Bindings) (construct : Construct)
    (condition : Expr Position) : Eval Bool := do
  let v ← evaluate ctx.caller ctx vars condition
  match v with
  | .bool b => pure b
  | _ => ctx.fail (.condition construct v.kind) condition.mark

/-- One round of a loop: the variables after it, or nothing when the condition fails. -/
def round (ctx : Context) (condition : Expr Position) (body : List (Clause Position))
    (vars : Bindings) : Eval (Option Bindings) := do
  let b ← holds ctx vars .loop condition
  if b then do
    let (vars, _) ← runBody ctx.caller ctx body vars
    pure (some vars)
  else pure none

/-- What a round of a loop leads to: the next round, or the outcome of the loop. -/
def afterRound (ctx : Context) (condition : Expr Position) (body : List (Clause Position)) :
    Bindings × Meter → (Bindings × Meter) ⊕ Outcome Bindings
  | (vars, m) =>
    match round ctx condition body vars m with
    | .stopped s m => .inr (.stopped s m)
    | .done none m => .inr (.done vars m)
    | .done (some vars) m => .inl (vars, m)

/-- The rounds of a loop until its condition fails or a round stops; there is no outcome when
neither ever happens. -/
def loop? (ctx : Context) (condition : Expr Position) (body : List (Clause Position))
    (vars : Bindings) (m : Meter) : Option (Outcome Bindings) :=
  iterate? (afterRound ctx condition body) (vars, m)

/-- **A loop**, with the variables after it. -/
def loop (ctx : Context) (condition : Expr Position) (body : List (Clause Position))
    (vars : Bindings) : Eval Bindings := fun m =>
  (loop? ctx condition body vars m).getD (.stopped .unfinished m)

/-- What to do with a loop on the top level: the variables after it. -/
abbrev Looper :=
  Context → Expr Position → List (Clause Position) → Bindings → Eval Bindings

/-- Runs one statement of the top level, for a way to run loops. -/
def runStatement (looper : Looper) (settings : Settings) (w : World) :
    Stmt Position → Eval World
  | .clause c => do
    let ctx := settings.context w
    let (vars, _) ← runBody ctx.caller ctx [c] w.bindings
    pure { w with bindings := vars }
  | .func name f => do
    (settings.context w).step
    pure { w with functions := w.functions.insert name f }
  | .cond _ condition body => do
    let ctx := settings.context w
    ctx.step
    let b ← holds ctx w.bindings .cond condition
    if b then do
      let (vars, _) ← runBody ctx.caller ctx body w.bindings
      pure { w with bindings := vars }
    else pure w
  | .loop _ condition body => do
    let ctx := settings.context w
    ctx.step
    let vars ← looper ctx condition body w.bindings
    pure { w with bindings := vars }

/-- **Runs statements** of the top level in turn, for a way to run loops. -/
def runStatements (looper : Looper) (settings : Settings) :
    World → List (Stmt Position) → Eval World
  | w, [] => pure w
  | w, s :: ss => do
    let w ← runStatement looper settings w s
    runStatements looper settings w ss

end Scriptlet
