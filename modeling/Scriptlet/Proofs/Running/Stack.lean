import Scriptlet.Proofs.Running.Depth

/-!
# The stack of open calls

Which calls are open is part of the context in which something is evaluated: a call evaluates its
body in another context, and goes on in its own. And whether it may be opened is told by a number
that is counted down from the limit.

One can also keep a **stack** that belongs to the whole run. A call is put on it when it is opened,
if the stack is not yet as high as the limit allows, and is taken off again when it is over,
whatever came of it. This is another way to run scripts, in which evaluating has a stack before it
and one after it (`Stacked`); traces of failures, and the depths that are recorded, are read off the
stack.

Both ways come to the same: an evaluation that keeps a stack **follows** one in a context
(`Follows`), which means that it has the same outcome, that it leaves the stack with the calls that
were on it, and that the greatest height of the stack is the greatest depth in the records.
-/

namespace Scriptlet

variable {α β : Type}

/-- **The stack of the open calls** of a run. -/
structure Stack where
  /-- The open calls, innermost first. -/
  frames : List Frame
  /-- How many calls were open at once so far, at most. -/
  peak : Nat

/-- An evaluation that keeps the open calls on a stack. -/
def Stacked (α : Type) : Type :=
  Stack → Meter → Outcome α × Stack

namespace Stacked

/-- A result at no cost. -/
protected def pure (a : α) : Stacked α := fun stack m =>
  (.done a m, stack)

/-- One evaluation, then another that depends on its result. -/
protected def bind (x : Stacked α) (f : α → Stacked β) : Stacked β := fun stack m =>
  match x stack m with
  | (.done a m, stack) => f a stack m
  | (.stopped s m, stack) => (.stopped s m, stack)

instance : Monad Stacked where
  pure := Stacked.pure
  bind := Stacked.bind

/-- What an evaluation does in the context of the calls that are on the stack. -/
def reading (settings : Settings) (functions : Table (Func Position)) (x : Context → Eval α) :
    Stacked α := fun stack m =>
  (x ⟨settings.limits, settings.cancelAt, functions, stack.frames⟩ m, stack)

/-- Puts a call on the stack, and notes how high the stack is then. -/
def push (frame : Frame) : Stacked Unit := fun stack m =>
  let frames := frame :: stack.frames
  (.done () { m with calls := ⟨frame.function, frames.length⟩ :: m.calls },
    ⟨frames, max frames.length stack.peak⟩)

/-- Evaluates, and takes a call off the stack afterwards, whatever came of it. -/
def popping (x : Stacked α) : Stacked α := fun stack m =>
  let (outcome, stack) := x stack m
  (outcome, { stack with frames := stack.frames.tail })

/-- What to do with the call of a function. -/
abbrev Caller := Bytes → Position → Func Position → List Value → Stacked Value

/-! ### Running scripts with a stack -/

section Evaluate

variable (caller : Caller) (settings : Settings) (functions : Table (Func Position))
  (vars : Bindings)

mutual

/-- The value of an expression. -/
def evaluate : Expr Position → Stacked Value
  | .var mark name => do
    reading settings functions Context.step
    match vars.get? name with
    | some v => pure v
    | none => reading settings functions (·.fail (.undefinedVariable name) mark)
  | .bool _ b => do
    reading settings functions Context.step
    pure (.bool b)
  | .number _ x => do
    reading settings functions Context.step
    pure (.number x)
  | .text _ s => do
    reading settings functions Context.step
    pure (.text (Bytes.pack s))
  | .array _ elements => do
    reading settings functions Context.step
    let vs ← evaluateList elements
    pure (.array vs)
  | .binary mark op left right => do
    reading settings functions Context.step
    let v ← evaluate left
    let w ← evaluate right
    reading settings functions (·.lift mark (v.combine op w))
  | .call mark name args => do
    reading settings functions Context.step
    match functions.get? name with
    | none => reading settings functions (·.fail (.undefinedFunction name) mark)
    | some f =>
      if args.length = f.params.length then do
        let vs ← evaluateList args
        caller name mark f vs
      else
        reading settings functions (·.fail (.functionArity name f.params.length args.length) mark)
  | .index _ object place => do
    reading settings functions Context.step
    let v ← evaluate object
    let w ← evaluate place
    match v.at? w with
    | .ok r => pure r
    | .error (.object fault) => reading settings functions (·.fail fault object.mark)
    | .error (.place fault) => reading settings functions (·.fail fault place.mark)
  | .member mark object property => do
    reading settings functions Context.step
    let v ← evaluate object
    reading settings functions (·.lift mark (v.member property))
  | .method mark object name args => do
    reading settings functions Context.step
    let v ← evaluate object
    let ws ← evaluateList args
    reading settings functions (·.lift mark (v.method name ws))

/-- The values of expressions, from left to right. -/
def evaluateList : List (Expr Position) → Stacked (List Value)
  | [] => pure []
  | e :: es => do
    let v ← evaluate e
    let vs ← evaluateList es
    pure (v :: vs)

end

end Evaluate

/-- Runs the clauses of a body. A return is outside of functions when the stack is empty. -/
def runBody (caller : Caller) (settings : Settings) (functions : Table (Func Position)) :
    List (Clause Position) → Bindings → Stacked (Bindings × Option Value)
  | [], vars => pure (vars, none)
  | .assign _ name value :: clauses, vars => do
    reading settings functions Context.step
    let v ← evaluate caller settings functions vars value
    runBody caller settings functions clauses (vars.insert name v)
  | .ret mark value :: _, vars => do
    reading settings functions Context.step
    let frames ← reading settings functions fun ctx => pure ctx.calls
    if frames.isEmpty then reading settings functions (·.fail .returnOutside mark)
    else do
      let v ← evaluate caller settings functions vars value
      pure (vars, some v)

/-- **Calls a function** when the stack is not yet as high as it may be. No more than `nesting`
calls are made inside one another. -/
def call (settings : Settings) : (nesting : Nat) → Table (Func Position) → Caller
  | 0, functions, _, _, _, _ => reading settings functions fun _ m => .stopped .unfinished m
  | nesting + 1, functions, name, site, f, args => do
    let frames ← reading settings functions fun ctx => pure ctx.calls
    if settings.limits.depth ≤ frames.length then
      reading settings functions (·.fail (.tooDeep settings.limits.depth) site)
    else popping do
      push ⟨name, site⟩
      let inner := if settings.limits.isolated then .empty else functions
      let (_, returned) ← runBody (call settings nesting inner) settings inner f.body
        (Table.empty.insertAll (f.params.zip args))
      match returned with
      | some v => pure v
      | none => reading settings inner (·.fail (.noReturn name) f.mark)

section Statements

variable (settings : Settings)

/-- The way calls are made on the top level. -/
def caller (functions : Table (Func Position)) : Caller :=
  call settings (settings.limits.depth + 1) functions

/-- Whether a condition holds. -/
def holds (functions : Table (Func Position)) (vars : Bindings) (construct : Construct)
    (condition : Expr Position) : Stacked Bool := do
  let v ← evaluate (caller settings functions) settings functions vars condition
  match v with
  | .bool b => pure b
  | _ => reading settings functions (·.fail (.condition construct v.kind) condition.mark)

/-- A loop that is cut off after a number of rounds. -/
def loopUpTo (functions : Table (Func Position)) (condition : Expr Position)
    (body : List (Clause Position)) : (rounds : Nat) → Bindings → Stacked Bindings
  | 0, _ => reading settings functions fun _ m => .stopped .unfinished m
  | rounds + 1, vars => do
    let b ← holds settings functions vars .loop condition
    if b then do
      let (vars, _) ← runBody (caller settings functions) settings functions body vars
      loopUpTo functions condition body rounds vars
    else pure vars

/-- Runs one statement of the top level, with its loops cut off after a number of rounds. -/
def runStatement (rounds : Nat) (w : World) : Stmt Position → Stacked World
  | .clause c => do
    let (vars, _) ← runBody (caller settings w.functions) settings w.functions [c] w.bindings
    pure { w with bindings := vars }
  | .func name f => do
    reading settings w.functions Context.step
    pure { w with functions := w.functions.insert name f }
  | .cond _ condition body => do
    reading settings w.functions Context.step
    let b ← holds settings w.functions w.bindings .cond condition
    if b then do
      let (vars, _) ← runBody (caller settings w.functions) settings w.functions body w.bindings
      pure { w with bindings := vars }
    else pure w
  | .loop _ condition body => do
    reading settings w.functions Context.step
    let vars ← loopUpTo settings w.functions condition body rounds w.bindings
    pure { w with bindings := vars }

/-- **Runs statements** of the top level in turn. -/
def runStatements (rounds : Nat) : World → List (Stmt Position) → Stacked World
  | w, [] => pure w
  | w, s :: ss => do
    let w ← runStatement settings rounds w s
    runStatements rounds w ss

end Statements

end Stacked

/-! ### Following an evaluation in a context -/

/-- **An evaluation that keeps a stack follows one that does not**, when certain calls are open:
with these on the stack it comes to the same outcome, they are on the stack again, and the greatest
height of the stack is what the meter shows. -/
def Follows (frames : List Frame) (x : Stacked α) (y : Eval α) : Prop :=
  ∀ m, x ⟨frames, m.deepest⟩ m = (y m, ⟨frames, (y m).meter.deepest⟩)

/-- The settings of a context. -/
def Context.settings (ctx : Context) : Settings :=
  ⟨ctx.limits, ctx.cancelAt⟩

namespace Follows

variable {frames : List Frame} {ctx : Context} {x : Stacked α} {y : Eval α}

protected theorem pure (a : α) : Follows frames (pure a) (pure a) :=
  fun _ => rfl

protected theorem bind {f : α → Stacked β} {g : α → Eval β} (hx : Follows frames x y)
    (hf : ∀ a, Follows frames (f a) (g a)) : Follows frames (x >>= f) (y >>= g) := by
  intro m
  have hstack := hx m
  rcases hy : y m with ⟨a, n⟩ | ⟨s, n⟩
  · rw [hy] at hstack
    rw [Eval.bind_of_done hy]
    simp only [Bind.bind, Stacked.bind, hstack, Outcome.meter]
    exact hf a n
  · rw [hy] at hstack
    rw [Eval.bind_of_stopped hy]
    simp only [Bind.bind, Stacked.bind, hstack]
    rfl

/-- What is read off the stack is what is in the context. -/
theorem reading {y : Context → Eval α} (h : ∀ m, (y ctx m).meter.deepest = m.deepest) :
    Follows ctx.calls (Stacked.reading ctx.settings ctx.functions y) (y ctx) := by
  intro m
  rw [h m]
  rfl

theorem step :
    Follows ctx.calls (Stacked.reading ctx.settings ctx.functions Context.step) ctx.step :=
  reading fun m => by rw [meter_step]; rfl

theorem fail (fault : Fault) (position : Position) :
    Follows ctx.calls (Stacked.reading ctx.settings ctx.functions (·.fail fault position))
      (ctx.fail fault position : Eval α) :=
  reading fun _ => rfl

theorem lift (position : Position) (o : Except Fault Value) :
    Follows ctx.calls (Stacked.reading ctx.settings ctx.functions (·.lift position o))
      (ctx.lift position o) :=
  reading fun m => by cases o <;> rfl

/-- The calls on the stack are those of the context. -/
theorem look {f : List Frame → Stacked α} (h : Follows ctx.calls (f ctx.calls) y) :
    Follows ctx.calls
      ((Stacked.reading ctx.settings ctx.functions fun ctx => pure ctx.calls) >>= f) y :=
  h

/-- A call is on the stack while its body is evaluated, and not after that. -/
theorem popping {name : Bytes} {site : Position} (h : Follows (⟨name, site⟩ :: ctx.calls) x y) :
    Follows ctx.calls (Stacked.popping (Stacked.push ⟨name, site⟩ >>= fun _ => x))
      (noteCall ⟨name, ctx.calls.length + 1⟩ >>= fun _ => y) := by
  intro m
  have hinside := h { m with calls := ⟨name, ctx.calls.length + 1⟩ :: m.calls }
  rw [Meter.deepest_cons] at hinside
  have hpushed : (Stacked.push ⟨name, site⟩ >>= fun _ => x) ⟨ctx.calls, m.deepest⟩ m = _ := hinside
  simp only [Stacked.popping, hpushed]
  rfl

/-! ### Expressions and bodies -/

section Bodies

variable {stacked : Stacked.Caller} {caller : Caller}
  (hcaller : ∀ name site f vs, Follows ctx.calls (stacked name site f vs) (caller name site f vs))

theorem evaluateList_of_forall {vars : Bindings} {es : List (Expr Position)}
    (h : ∀ e ∈ es, Follows ctx.calls (Stacked.evaluate stacked ctx.settings ctx.functions vars e)
      (evaluate caller ctx vars e)) :
    Follows ctx.calls (Stacked.evaluateList stacked ctx.settings ctx.functions vars es)
      (evaluateList caller ctx vars es) := by
  induction es with
  | nil =>
    rw [Stacked.evaluateList, Scriptlet.evaluateList]
    exact .pure _
  | cons e es ih =>
    rw [Stacked.evaluateList, Scriptlet.evaluateList]
    refine (h e List.mem_cons_self).bind fun v => ?_
    exact (ih fun x hx => h x (List.mem_cons_of_mem e hx)).bind fun vs => .pure _

include hcaller

/-- **Evaluating an expression with a stack** follows evaluating it in a context. -/
theorem evaluate (vars : Bindings) (e : Expr Position) :
    Follows ctx.calls (Stacked.evaluate stacked ctx.settings ctx.functions vars e)
      (evaluate caller ctx vars e) := by
  induction e with
  | var mark name =>
    rw [Stacked.evaluate, Scriptlet.evaluate]
    refine step.bind fun _ => ?_
    cases vars.get? name with
    | none => exact .fail _ _
    | some v => exact .pure v
  | bool | number | text =>
    rw [Stacked.evaluate, Scriptlet.evaluate]
    exact step.bind fun _ => .pure _
  | array mark elements ih =>
    rw [Stacked.evaluate, Scriptlet.evaluate]
    exact step.bind fun _ => (evaluateList_of_forall ih).bind fun vs => .pure _
  | binary mark op left right ihl ihr =>
    rw [Stacked.evaluate, Scriptlet.evaluate]
    exact step.bind fun _ => ihl.bind fun v => ihr.bind fun w => .lift _ _
  | call mark name args ih =>
    rw [Stacked.evaluate, Scriptlet.evaluate]
    refine step.bind fun _ => ?_
    cases ctx.functions.get? name with
    | none => exact .fail _ _
    | some f =>
      dsimp only
      split
      · exact (evaluateList_of_forall ih).bind fun vs => hcaller name mark f vs
      · exact .fail _ _
  | index mark object place iho ihp =>
    rw [Stacked.evaluate, Scriptlet.evaluate]
    refine step.bind fun _ => iho.bind fun v => ihp.bind fun w => ?_
    rcases v.at? w with (fault | fault) | r
    · exact .fail _ _
    · exact .fail _ _
    · exact .pure r
  | member mark object property iho =>
    rw [Stacked.evaluate, Scriptlet.evaluate]
    exact step.bind fun _ => iho.bind fun v => .lift _ _
  | method mark object name args iho ih =>
    rw [Stacked.evaluate, Scriptlet.evaluate]
    exact step.bind fun _ => iho.bind fun v =>
      (evaluateList_of_forall ih).bind fun ws => .lift _ _

/-- The clauses of a body are run with the same calls open. -/
theorem runBody (body : List (Clause Position)) (vars : Bindings) :
    Follows ctx.calls (Stacked.runBody stacked ctx.settings ctx.functions body vars)
      (runBody caller ctx body vars) := by
  induction body generalizing vars with
  | nil => exact .pure _
  | cons c body ih =>
    cases c with
    | assign mark name value =>
      exact step.bind fun _ => (evaluate hcaller vars value).bind fun v => ih _
    | ret mark value =>
      rw [Stacked.runBody, Scriptlet.runBody]
      refine step.bind fun _ => look ?_
      split
      · exact .fail _ _
      · exact (evaluate hcaller vars value).bind fun v => .pure _

end Bodies

/-! ### Calls and statements -/

/-- **Making a call with a stack** follows making it in a context: the calls on the stack and
those that may still be opened make up the limit. -/
theorem call {nesting depth : Nat} (hdepth : depth + ctx.calls.length = ctx.limits.depth)
    (hnesting : depth < nesting) (name : Bytes) (site : Position) (f : Func Position)
    (vs : List Value) :
    Follows ctx.calls (Stacked.call ctx.settings nesting ctx.functions name site f vs)
      (call depth ctx name site f vs) := by
  induction nesting generalizing ctx depth name site f vs with
  | zero => omega
  | succ nesting ih =>
    rw [Stacked.call]
    refine look ?_
    cases depth with
    | zero =>
      have hfull : ctx.settings.limits.depth ≤ ctx.calls.length := by
        show ctx.limits.depth ≤ ctx.calls.length
        omega
      rw [if_pos hfull, Scriptlet.call]
      exact .fail _ _
    | succ depth =>
      have hroom : ¬ctx.settings.limits.depth ≤ ctx.calls.length := by
        show ¬ctx.limits.depth ≤ ctx.calls.length
        omega
      have hrecord : ctx.limits.depth - depth = ctx.calls.length + 1 := by omega
      rw [if_neg hroom, Scriptlet.call, hrecord]
      -- inside the call one more is open, and one less may be
      have hinside : ∀ name' site' g ws, Follows (ctx.enter name site).calls
          (Stacked.call ctx.settings nesting (ctx.enter name site).functions name' site' g ws)
          (Scriptlet.call depth (ctx.enter name site) name' site' g ws) := by
        refine ih ?_ (by omega)
        show depth + (ctx.calls.length + 1) = ctx.limits.depth
        omega
      have hbody := fun vars => runBody hinside f.body vars
      refine popping ((hbody _).bind fun p => ?_)
      rcases p with ⟨vars, _ | v⟩
      · exact @fail _ (ctx.enter name site) _ _
      · exact .pure v

theorem caller (hcalls : ctx.calls = []) (name : Bytes) (site : Position) (f : Func Position)
    (vs : List Value) :
    Follows ctx.calls (Stacked.caller ctx.settings ctx.functions name site f vs)
      (ctx.caller name site f vs) :=
  call (by rw [hcalls]; rfl) (Nat.lt_succ_self _) name site f vs

section Statements

variable (hcalls : ctx.calls = [])

include hcalls

theorem holds (vars : Bindings) (construct : Construct) (condition : Expr Position) :
    Follows ctx.calls (Stacked.holds ctx.settings ctx.functions vars construct condition)
      (holds ctx vars construct condition) := by
  refine (evaluate (caller hcalls) vars condition).bind fun v => ?_
  cases v with
  | bool b => exact .pure b
  | invalid | number | text | array => exact .fail _ _

theorem loopUpTo (condition : Expr Position) (body : List (Clause Position)) (rounds : Nat)
    (vars : Bindings) :
    Follows ctx.calls (Stacked.loopUpTo ctx.settings ctx.functions condition body rounds vars)
      (loopUpTo rounds ctx condition body vars) := by
  induction rounds generalizing vars with
  | zero => exact fun _ => rfl
  | succ rounds ih =>
    rw [Stacked.loopUpTo, Scriptlet.loopUpTo, round, Eval.bind_assoc]
    refine (holds hcalls vars .loop condition).bind fun b => ?_
    cases b with
    | false => exact .pure vars
    | true =>
      rw [if_pos rfl, if_pos rfl, Eval.bind_assoc]
      exact (runBody (caller hcalls) body vars).bind fun p => ih p.1

end Statements

/-- On the top level no call is open. -/
theorem runStatement (settings : Settings) (rounds : Nat) (w : World) (s : Stmt Position) :
    Follows [] (Stacked.runStatement settings rounds w s)
      (runStatement (Scriptlet.loopUpTo rounds) settings w s) := by
  have hcalls : (settings.context w).calls = [] := rfl
  have hstep : Follows [] (Stacked.reading settings w.functions Context.step)
      (settings.context w).step := @step (settings.context w)
  cases s with
  | clause c => exact (runBody (caller hcalls) [c] w.bindings).bind fun p => .pure _
  | func name f => exact hstep.bind fun _ => .pure _
  | cond mark condition body =>
    refine hstep.bind fun _ => (holds hcalls w.bindings .cond condition).bind fun b => ?_
    cases b with
    | false => exact .pure w
    | true => exact (runBody (caller hcalls) body w.bindings).bind fun p => .pure _
  | loop mark condition body =>
    exact hstep.bind fun _ => (loopUpTo hcalls condition body rounds w.bindings).bind fun vars =>
      .pure _

/-- **Running statements with a stack**, which is empty at first, follows running them in
contexts. -/
theorem runStatements (settings : Settings) (rounds : Nat) (w : World)
    (ss : List (Stmt Position)) :
    Follows [] (Stacked.runStatements settings rounds w ss)
      (runStatements (Scriptlet.loopUpTo rounds) settings w ss) := by
  induction ss generalizing w with
  | nil => exact .pure w
  | cons s ss ih => exact (runStatement settings rounds w s).bind ih

end Follows

/-! ### The limit is transparent and exact -/

/-- **The limit on open calls is transparent and exact.** Let `D` be the greatest depth that a run
reaches, which for a run that comes to an end is the greatest one in its records. If the run does
not fail for its limit, then it is the same run under any limit that is at least `D`, with the same
result, the same steps, and the same records; if it goes on for good, it does so in the same way,
round by round. And under any limit below `D` it fails for that limit, with one frame more in its
stack trace than the limit allows calls.

When the open calls are kept on a stack, the runs are the same. The stack is empty before and after,
it has never been higher than the limit, and after each call it is what it was before. -/
theorem recursionLimit_transparent (limits : Limits) (cancelAt : Option Nat) (w : World)
    (script : Script) :
    let s : Settings := ⟨limits, cancelAt⟩
    let run := runScript s w script
    let D := depthReached s w script
    (IsGreatest (Set.range fun rounds => (runUpTo s w script rounds).meter.deepest) D ∧
      (run.result ≠ .error .unfinished → D = run.meter.deepest)) ∧
    ((∀ failure, run.result = .error (.failed failure) → failure.fault ≠ .tooDeep limits.depth) →
      (∀ depth, D ≤ depth →
        let run' := runScript (s.withDepth depth) w script
        run'.result = run.result ∧
        (run.result ≠ .error .unfinished →
          run' = run ∧ run'.records script = run.records script) ∧
        ∀ rounds, runUpTo (s.withDepth depth) w script rounds = runUpTo s w script rounds) ∧
      ∀ depth, depth < D → (runScript (s.withDepth depth) w script).FailsAtDepth depth) ∧
    (∀ rounds, ∃ peak, peak ≤ limits.depth ∧
      Stacked.runStatements s rounds w script.statements ⟨[], 0⟩ ⟨0, []⟩ =
        (runStatements (loopUpTo rounds) s w script.statements ⟨0, []⟩, ⟨[], peak⟩)) ∧
    ∀ functions frames, frames.length ≤ limits.depth → ∀ name site f args m, ∃ peak,
      Stacked.call s (limits.depth + 1) functions name site f args ⟨frames, m.deepest⟩ m =
        (call (limits.depth - frames.length) ⟨limits, cancelAt, functions, frames⟩
          name site f args m, ⟨frames, peak⟩) := by
  intro s run D
  refine ⟨⟨⟨?_, ?_⟩, depthReached_of_finished⟩,
    fun hrun => ⟨fun depth hD => ?_, fun depth hD => ?_⟩, fun rounds => ?_,
    fun functions frames hframes name site f args m => ?_⟩
  · exact exists_deepest_eq_depthReached s w script
  · rintro _ ⟨rounds, rfl⟩
    exact deepest_le_depthReached s w script rounds
  -- no loop of the run hits the limit, however often it goes round, so a limit that it never
  -- reaches does as well
  · have hnot : ¬run.FailsAtDepth limits.depth :=
      fun ⟨failure, hresult, hfault, _⟩ => hrun failure hresult hfault
    have hsame := runUpTo_of_depthReached_le hnot hD
    obtain ⟨hresult, hfinished⟩ := runScript_congr hsame
    refine ⟨hresult, fun hend => ⟨hfinished hend, ?_⟩, hsame⟩
    rw [hfinished hend]
  · exact failsAtDepth_of_lt_depthReached hD
  · have hpeak := deepest_runUpTo_le s w script rounds
    rw [runUpTo, Outcome.meter_run] at hpeak
    exact ⟨_, hpeak, Follows.runStatements s rounds w script.statements ⟨0, []⟩⟩
  · exact ⟨_, @Follows.call ⟨limits, cancelAt, functions, frames⟩ _ _
      (Nat.sub_add_cancel hframes) (Nat.lt_succ_of_le (Nat.sub_le _ _)) name site f args m⟩

/-- A script in which `f` calls `g`, so that two calls are open at once. -/
def nestedCall : Script :=
  ⟨[], [.func [103] ⟨.none, [], [.ret .none (.bool .none true)]⟩,
    .func [102] ⟨.none, [], [.ret .none (.call .none [103] [])]⟩,
    .clause (.assign .none [97] (.call .none [102] []))]⟩

/-- It reaches depth two. So a limit of two makes no difference to one of five, and under a limit of
one it fails with two frames. -/
theorem recursionLimit_transparent_nestedCall :
    let s : Settings := ⟨.ofRequest 0 5 false, none⟩
    (∀ failure, (runScript s .empty nestedCall).result = .error (.failed failure) →
      failure.fault ≠ .tooDeep 5) ∧
    depthReached s .empty nestedCall = 2 ∧
    (runScript (s.withDepth 2) .empty nestedCall).result = (runScript s .empty nestedCall).result ∧
    (runScript (s.withDepth 1) .empty nestedCall).FailsAtDepth 1 := by
  intro s
  obtain ⟨⟨-, hD⟩, hlimits, -⟩ := recursionLimit_transparent (.ofRequest 0 5 false) none .empty
    nestedCall
  have hrun : ∀ failure, (runScript s .empty nestedCall).result = .error (.failed failure) →
      failure.fault ≠ .tooDeep 5 := fun failure h => by cases h
  have hdepth : depthReached s .empty nestedCall = 2 := hD fun h => by cases h
  obtain ⟨hsame, hfails⟩ := hlimits hrun
  exact ⟨hrun, hdepth, (hsame 2 hdepth.le).1, hfails 1 (hdepth ▸ Nat.one_lt_two)⟩

end Scriptlet
