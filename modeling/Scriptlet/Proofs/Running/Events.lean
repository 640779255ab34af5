import Scriptlet.Proofs.Running.CallTree
import Scriptlet.Proofs.Running.Depth

/-!
# What happens in the course of a run

A run has a result, and a meter that shows how many steps it has taken and which calls it has made.
Much more happens on the way: scopes come and go, and so do the values of expressions. To say
something about all of that, scripts are run so that everything is written down as it **happens**
(`Event`): each step, each call when it is opened, the variables of a scope whenever one of them
is bound, and the value of each expression that has one. That is yet another way to run scripts
(`Traced`), in which evaluating has a list of events besides its outcome, and the arguments of a
call are bound one by one in the scope of the call.

A list of events **tells** what an evaluation does (`Tells`): the outcome is the same; the meter is
what the events make of it, so every step and every call is among them; and the calls that are open
in the end, or when it fails, are open after the calls that were made.
-/

namespace Scriptlet

variable {α β γ : Type}

/-! ### Events -/

/-- **What happens in the course of a run.** -/
inductive Event where
  /-- A step is taken. -/
  | step
  /-- A call is opened. -/
  | call (record : CallRecord)
  /-- A variable of a scope is bound, which has these variables then. -/
  | scope (vars : Bindings)
  /-- An expression has a value. -/
  | value (v : Value)

namespace Event

/-- Whether an event is a step. -/
def isStep : Event → Bool
  | step => true
  | _ => false

/-- The call that an event opens. -/
def call? : Event → Option CallRecord
  | call record => some record
  | _ => none

/-- What an event makes of the meter. -/
def count (m : Meter) : Event → Meter
  | step => { m with steps := m.steps + 1 }
  | call record => { m with calls := record :: m.calls }
  | scope _ | value _ => m

end Event

/-- **The meter after some events.** -/
def Meter.after (m : Meter) (events : List Event) : Meter :=
  events.foldl Event.count m

namespace Meter

/-- Events count one after another. -/
theorem after_append (m : Meter) (events events' : List Event) :
    m.after (events ++ events') = (m.after events).after events' :=
  List.foldl_append

/-- Each step among the events is one on the meter. -/
theorem steps_after (m : Meter) (events : List Event) :
    (m.after events).steps = m.steps + events.countP Event.isStep := by
  induction events generalizing m with
  | nil => rfl
  | cons e events ih =>
    rw [after, List.foldl_cons, ← after, ih]
    cases e with
    | step => rw [List.countP_cons_of_pos rfl, Event.count, Nat.add_right_comm, Nat.add_assoc]
    | call | scope | value => rw [List.countP_cons_of_neg Bool.false_ne_true, Event.count]

/-- Each call that is opened among the events has its record, in order. -/
theorem calls_after (m : Meter) (events : List Event) :
    (m.after events).calls.reverse = m.calls.reverse ++ events.filterMap Event.call? := by
  induction events generalizing m with
  | nil => exact (List.append_nil _).symm
  | cons e events ih =>
    rw [after, List.foldl_cons, ← after, ih]
    cases e with
    | call record => simp [Event.count, Event.call?]
    | step | scope | value => rfl

end Meter

/-! ### Evaluations that write down what happens -/

/-- An evaluation with what happens in its course. -/
def Traced (α : Type) : Type :=
  Meter → Outcome α × List Event

namespace Traced

/-- A result without anything that happens. -/
protected def pure (a : α) : Traced α := fun m =>
  (.done a m, [])

/-- One evaluation, then another that depends on its result. -/
protected def bind (x : Traced α) (f : α → Traced β) : Traced β := fun m =>
  match x m with
  | (.done a m, events) => ((f a m).1, events ++ (f a m).2)
  | (.stopped s m, events) => (.stopped s m, events)

instance : Monad Traced where
  pure := Traced.pure
  bind := Traced.bind

theorem bind_of_done {x : Traced α} {m n : Meter} {a : α} (h : (x m).1 = .done a n)
    (f : α → Traced β) : (x >>= f) m = ((f a n).1, (x m).2 ++ (f a n).2) := by
  rcases hx : x m with ⟨o, events⟩
  obtain rfl : o = .done a n := by rw [← h, hx]
  simp only [Bind.bind, Traced.bind, hx]

theorem bind_of_stopped {x : Traced α} {m n : Meter} {s : Stop} (h : (x m).1 = .stopped s n)
    (f : α → Traced β) : (x >>= f) m = (.stopped s n, (x m).2) := by
  rcases hx : x m with ⟨o, events⟩
  obtain rfl : o = .stopped s n := by rw [← h, hx]
  simp only [Bind.bind, Traced.bind, hx]

/-- An evaluation in the course of which certain things happen. -/
def happening (events : List Event) (x : Eval α) : Traced α := fun m =>
  (x m, events)

/-- An evaluation in the course of which nothing happens. -/
def quiet (x : Eval α) : Traced α :=
  happening [] x

/-- One step. -/
def step (ctx : Context) : Traced Unit :=
  happening [.step] ctx.step

/-- Opens a call. -/
def enter (record : CallRecord) : Traced Unit :=
  happening [.call record] (noteCall record)

/-- Writes down the variables of a scope. -/
def scope (vars : Bindings) : Traced Unit :=
  happening [.scope vars] (pure ())

/-- Evaluates an expression, and writes down its value. -/
def valued (x : Traced Value) : Traced Value := do
  let v ← x
  happening [.value v] (pure v)

/-- What to do with the call of a function, whose scope holds the arguments. -/
abbrev Caller := Bytes → Position → Func Position → Bindings → Traced Value

/-! ### Running scripts -/

section Evaluate

variable (caller : Caller) (ctx : Context) (vars : Bindings)

mutual

/-- The value of an expression. -/
def evaluate : Expr Position → Traced Value
  | .var mark name => valued do
    step ctx
    match vars.get? name with
    | some v => pure v
    | none => quiet (ctx.fail (.undefinedVariable name) mark)
  | .bool _ b => valued do
    step ctx
    pure (.bool b)
  | .number _ x => valued do
    step ctx
    pure (.number x)
  | .text _ s => valued do
    step ctx
    pure (.text (Bytes.pack s))
  | .array _ elements => valued do
    step ctx
    let vs ← evaluateList elements
    pure (.array vs)
  | .binary mark op left right => valued do
    step ctx
    let v ← evaluate left
    let w ← evaluate right
    quiet (ctx.lift mark (v.combine op w))
  | .call mark name args => valued do
    step ctx
    match ctx.functions.get? name with
    | none => quiet (ctx.fail (.undefinedFunction name) mark)
    | some f =>
      if args.length = f.params.length then do
        let own ← bindArguments f.params .empty args
        caller name mark f own
      else quiet (ctx.fail (.functionArity name f.params.length args.length) mark)
  | .index _ object place => valued do
    step ctx
    let v ← evaluate object
    let w ← evaluate place
    match v.at? w with
    | .ok r => pure r
    | .error (.object fault) => quiet (ctx.fail fault object.mark)
    | .error (.place fault) => quiet (ctx.fail fault place.mark)
  | .member mark object property => valued do
    step ctx
    let v ← evaluate object
    quiet (ctx.lift mark (v.member property))
  | .method mark object name args => valued do
    step ctx
    let v ← evaluate object
    let ws ← evaluateList args
    quiet (ctx.lift mark (v.method name ws))

/-- The values of expressions, from left to right. -/
def evaluateList : List (Expr Position) → Traced (List Value)
  | [] => pure []
  | e :: es => do
    let v ← evaluate e
    let vs ← evaluateList es
    pure (v :: vs)

/-- Binds parameters in the scope of a call, each as soon as the value of its argument is known:
the variables of that scope. -/
def bindArguments : List Bytes → Bindings → List (Expr Position) → Traced Bindings
  | param :: params, own, e :: es => do
    let v ← evaluate e
    scope (own.insert param v)
    bindArguments params (own.insert param v) es
  | [], own, _ | _ :: _, own, [] => pure own

end

end Evaluate

/-- Runs the clauses of a body. -/
def runBody (caller : Caller) (ctx : Context) :
    List (Clause Position) → Bindings → Traced (Bindings × Option Value)
  | [], vars => pure (vars, none)
  | .assign _ name value :: clauses, vars => do
    step ctx
    let v ← evaluate caller ctx vars value
    scope (vars.insert name v)
    runBody caller ctx clauses (vars.insert name v)
  | .ret mark value :: _, vars => do
    step ctx
    if ctx.calls.isEmpty then quiet (ctx.fail .returnOutside mark)
    else do
      let v ← evaluate caller ctx vars value
      pure (vars, some v)

/-- **Calls a function** when at most `depth` further calls may be opened. -/
def call : (depth : Nat) → Context → Caller
  | 0, ctx, _, site, _, _ => quiet (ctx.fail (.tooDeep ctx.limits.depth) site)
  | depth + 1, ctx, name, site, f, own => do
    let inside := ctx.enter name site
    enter ⟨name, inside.calls.length⟩
    let (_, returned) ← runBody (call depth inside) inside f.body own
    match returned with
    | some v => pure v
    | none => quiet (inside.fail (.noReturn name) f.mark)

/-- The way calls are made on the top level. -/
def caller (ctx : Context) : Caller :=
  call ctx.limits.depth ctx

/-- Whether a condition holds. -/
def holds (ctx : Context) (vars : Bindings) (construct : Construct)
    (condition : Expr Position) : Traced Bool := do
  let v ← evaluate (caller ctx) ctx vars condition
  match v with
  | .bool b => pure b
  | _ => quiet (ctx.fail (.condition construct v.kind) condition.mark)

/-- A loop that is cut off after a number of rounds. -/
def loopUpTo (ctx : Context) (condition : Expr Position) (body : List (Clause Position)) :
    (rounds : Nat) → Bindings → Traced Bindings
  | 0, _ => quiet fun m => .stopped .unfinished m
  | rounds + 1, vars => do
    let b ← holds ctx vars .loop condition
    if b then do
      let (vars, _) ← runBody (caller ctx) ctx body vars
      loopUpTo ctx condition body rounds vars
    else pure vars

/-- Runs one statement of the top level, with its loops cut off after a number of rounds. -/
def runStatement (settings : Settings) (rounds : Nat) (w : World) : Stmt Position → Traced World
  | .clause c => do
    let ctx := settings.context w
    let (vars, _) ← runBody (caller ctx) ctx [c] w.bindings
    pure { w with bindings := vars }
  | .func name f => do
    step (settings.context w)
    pure { w with functions := w.functions.insert name f }
  | .cond _ condition body => do
    let ctx := settings.context w
    step ctx
    let b ← holds ctx w.bindings .cond condition
    if b then do
      let (vars, _) ← runBody (caller ctx) ctx body w.bindings
      pure { w with bindings := vars }
    else pure w
  | .loop _ condition body => do
    let ctx := settings.context w
    step ctx
    let vars ← loopUpTo ctx condition body rounds w.bindings
    pure { w with bindings := vars }

/-- **Runs statements** of the top level in turn, with their loops cut off. -/
def runStatements (settings : Settings) (rounds : Nat) :
    World → List (Stmt Position) → Traced World
  | w, [] => pure w
  | w, s :: ss => do
    let w ← runStatement settings rounds w s
    runStatements settings rounds w ss

end Traced

/-! ### Calls that are left open -/

/-- **The calls that are open at an outcome** are open after the calls that the meter shows: certain
ones when there is a result, those of the failure when there is one. -/
def Outcome.LeavesOpen (limit : Nat) (frames : List Frame) : Outcome α → Prop
  | .done _ n => Opened limit frames n.calls
  | .stopped (.failed failure) n => Opened limit failure.calls n.calls
  | .stopped .cancelled n | .stopped .unfinished n => ∃ frames, Opened limit frames n.calls

namespace Outcome.LeavesOpen

variable {limit : Nat} {frames : List Frame}

theorem of_stopped {s : Stop} {n : Meter}
    (h : (.stopped s n : Outcome α).LeavesOpen limit frames) :
    (.stopped s n : Outcome β).LeavesOpen limit frames := by
  cases s <;> exact h

/-- However an evaluation goes, some calls are open at its end. -/
theorem exists_opened {o : Outcome α} (h : o.LeavesOpen limit frames) :
    ∃ frames, Opened limit frames o.meter.calls := by
  rcases o with ⟨a, n⟩ | ⟨failure | _ | _, n⟩
  · exact ⟨frames, h⟩
  · exact ⟨failure.calls, h⟩
  all_goals exact h

/-- When a call is over, the ones around it are still open. -/
theorem leave {frame : Frame} {o : Outcome α} (h : o.LeavesOpen limit (frame :: frames)) :
    o.LeavesOpen limit frames := by
  rcases o with ⟨a, n⟩ | ⟨failure | _ | _, n⟩
  · exact Opened.leave h
  all_goals exact h

end Outcome.LeavesOpen

/-! ### Telling what an evaluation does -/

/-- **An outcome with its events tells** an outcome without, from a meter on and in a context. -/
structure Outcome.ToldBy (ctx : Context) (m : Meter) (o : Outcome α)
    (r : Outcome α × List Event) : Prop where
  /-- It is the same outcome. -/
  outcome : r.1 = o
  /-- The meter is what the events make of it. -/
  meter : o.meter = m.after r.2
  /-- It leaves calls open, among those that were made. -/
  leavesOpen : Opened ctx.limits.depth ctx.calls m.calls →
    o.LeavesOpen ctx.limits.depth ctx.calls

/-- **An evaluation with its events tells** what one without does, in a context. -/
def Tells (ctx : Context) (x : Traced α) (y : Eval α) : Prop :=
  ∀ m, (y m).ToldBy ctx m (x m)

theorem Eval.bind_pure (y : Eval α) : (y >>= fun a => pure a) = y := by
  funext m
  rcases hy : y m with ⟨a, n⟩ | ⟨s, n⟩
  · exact bind_of_done hy _
  · exact bind_of_stopped hy _

namespace Tells

variable {ctx : Context} {x : Traced α} {y : Eval α}

protected theorem pure (a : α) : Tells ctx (pure a) (pure a) :=
  fun _ => ⟨rfl, rfl, fun h => h⟩

/-- One evaluation after another, where the result of the first is put in another form. -/
theorem bind_map {x : Traced γ} {k : α → γ} {f : γ → Traced β} {g : α → Eval β}
    (hx : Tells ctx x (y >>= fun a => pure (k a))) (hf : ∀ a, Tells ctx (f (k a)) (g a)) :
    Tells ctx (x >>= f) (y >>= g) := by
  intro m
  have hm := hx m
  rcases hy : y m with ⟨a, n⟩ | ⟨s, n⟩
  · rw [Eval.bind_of_done hy] at hm
    have hn : n = m.after (x m).2 := hm.meter
    have hfa := hf a n
    rw [Traced.bind_of_done hm.outcome, Eval.bind_of_done hy]
    refine ⟨hfa.outcome, ?_, fun hopen => hfa.leavesOpen (hm.leavesOpen hopen)⟩
    rw [Meter.after_append, ← hn]
    exact hfa.meter
  · rw [Eval.bind_of_stopped hy] at hm
    rw [Traced.bind_of_stopped hm.outcome, Eval.bind_of_stopped hy]
    exact ⟨rfl, hm.meter, fun hopen => (hm.leavesOpen hopen).of_stopped⟩

protected theorem bind {f : α → Traced β} {g : α → Eval β} (hx : Tells ctx x y)
    (hf : ∀ a, Tells ctx (f a) (g a)) : Tells ctx (x >>= f) (y >>= g) :=
  bind_map (k := fun a => a) (y.bind_pure.symm ▸ hx) hf

theorem step : Tells ctx (Traced.step ctx) ctx.step := by
  refine fun m => ⟨rfl, meter_step ctx m, fun hopen => ?_⟩
  dsimp only [Context.step]
  split
  · split
    · exact ⟨ctx.calls, hopen⟩
    · exact hopen
  · exact hopen

theorem fail (fault : Fault) (position : Position) :
    Tells ctx (Traced.quiet (ctx.fail fault position)) (ctx.fail fault position : Eval α) :=
  fun _ => ⟨rfl, rfl, fun h => h⟩

theorem lift (position : Position) (o : Except Fault Value) :
    Tells ctx (Traced.quiet (ctx.lift position o)) (ctx.lift position o) := by
  cases o with
  | ok v => exact .pure v
  | error fault => exact .fail fault position

/-- Writing down a scope changes nothing. -/
theorem scope {f : Unit → Traced α} (vars : Bindings) (h : Tells ctx (f ()) y) :
    Tells ctx (Traced.scope vars >>= f) y :=
  fun m => ⟨(h m).outcome, (h m).meter, (h m).leavesOpen⟩

/-- And neither does writing down a value. -/
theorem valued {x : Traced Value} {y : Eval Value} (h : Tells ctx x y) :
    Tells ctx (Traced.valued x) y := by
  intro m
  have hm := h m
  rcases hy : y m with ⟨v, n⟩ | ⟨s, n⟩
  · rw [hy] at hm
    rw [Traced.valued, Traced.bind_of_done hm.outcome]
    refine ⟨rfl, ?_, hm.leavesOpen⟩
    rw [Meter.after_append, ← hm.meter]
    rfl
  · rw [hy] at hm
    rw [Traced.valued, Traced.bind_of_stopped hm.outcome]
    exact ⟨rfl, hm.meter, hm.leavesOpen⟩

/-- **A call is open while its body is evaluated**, and not after that. -/
theorem enter {name : Bytes} {site : Position} {f : Unit → Traced α}
    (hroom : ctx.calls.length < ctx.limits.depth) (h : Tells (ctx.enter name site) (f ()) y) :
    Tells ctx (Traced.enter ⟨name, ctx.calls.length + 1⟩ >>= f)
      (noteCall ⟨name, ctx.calls.length + 1⟩ >>= fun _ => y) :=
  fun m =>
    have hinside := h ⟨m.steps, ⟨name, ctx.calls.length + 1⟩ :: m.calls⟩
    ⟨hinside.outcome, hinside.meter, fun hopen =>
      (hinside.leavesOpen (.enter name site hopen hroom)).leave⟩

/-! ### Expressions and bodies -/

section Bodies

variable {traced : Traced.Caller} {caller : Caller} {vars : Bindings}

theorem evaluateList_of_forall {es : List (Expr Position)}
    (h : ∀ e ∈ es, Tells ctx (Traced.evaluate traced ctx vars e) (evaluate caller ctx vars e)) :
    Tells ctx (Traced.evaluateList traced ctx vars es) (evaluateList caller ctx vars es) := by
  induction es with
  | nil =>
    rw [Traced.evaluateList, Scriptlet.evaluateList]
    exact .pure _
  | cons e es ih =>
    rw [Traced.evaluateList, Scriptlet.evaluateList]
    refine (h e List.mem_cons_self).bind fun v => ?_
    exact (ih fun x hx => h x (List.mem_cons_of_mem e hx)).bind fun vs => .pure _

/-- **Binding parameters one by one** comes to evaluating all arguments and binding them then. -/
theorem bindArguments_of_forall {es : List (Expr Position)}
    (h : ∀ e ∈ es, Tells ctx (Traced.evaluate traced ctx vars e) (evaluate caller ctx vars e))
    {params : List Bytes} (hlength : es.length = params.length) (own : Bindings) :
    Tells ctx (Traced.bindArguments traced ctx vars params own es)
      (evaluateList caller ctx vars es >>= fun vs => pure (own.insertAll (params.zip vs))) := by
  induction es generalizing params own with
  | nil =>
    obtain rfl := List.length_eq_zero_iff.1 hlength.symm
    rw [Traced.bindArguments, Scriptlet.evaluateList]
    exact .pure _
  | cons e es ih =>
    rcases params with _ | ⟨param, params⟩
    · cases hlength
    · rw [Traced.bindArguments, Scriptlet.evaluateList, Eval.bind_assoc]
      refine (h e List.mem_cons_self).bind fun v => ?_
      rw [Eval.bind_assoc]
      exact .scope _ (ih (fun x hx => h x (List.mem_cons_of_mem e hx)) (Nat.succ.inj hlength) _)

/-- What to do with calls is told, too. -/
def Callers (ctx : Context) (traced : Traced.Caller) (caller : Caller) : Prop :=
  ∀ name site f vs, Tells ctx (traced name site f (Table.empty.insertAll (f.params.zip vs)))
    (caller name site f vs)

variable (hcallers : Callers ctx traced caller)

include hcallers

/-- **Events tell what evaluating an expression does.** -/
theorem evaluate (e : Expr Position) :
    Tells ctx (Traced.evaluate traced ctx vars e) (evaluate caller ctx vars e) := by
  induction e with
  | var mark name =>
    rw [Traced.evaluate, Scriptlet.evaluate]
    refine .valued (step.bind fun _ => ?_)
    cases vars.get? name with
    | none => exact .fail _ _
    | some v => exact .pure v
  | bool | number | text =>
    rw [Traced.evaluate, Scriptlet.evaluate]
    exact .valued (step.bind fun _ => .pure _)
  | array mark elements ih =>
    rw [Traced.evaluate, Scriptlet.evaluate]
    exact .valued (step.bind fun _ => (evaluateList_of_forall ih).bind fun vs => .pure _)
  | binary mark op left right ihl ihr =>
    rw [Traced.evaluate, Scriptlet.evaluate]
    exact .valued (step.bind fun _ => ihl.bind fun v => ihr.bind fun w => .lift _ _)
  | call mark name args ih =>
    rw [Traced.evaluate, Scriptlet.evaluate]
    refine .valued (step.bind fun _ => ?_)
    cases ctx.functions.get? name with
    | none => exact .fail _ _
    | some f =>
      dsimp only
      split
      · rename_i hlength
        -- arguments are bound as they are evaluated, and the call begins with all of them
        exact bind_map (bindArguments_of_forall ih hlength .empty) (hcallers name mark f)
      · exact .fail _ _
  | index mark object place iho ihp =>
    rw [Traced.evaluate, Scriptlet.evaluate]
    refine .valued (step.bind fun _ => iho.bind fun v => ihp.bind fun w => ?_)
    rcases v.at? w with (fault | fault) | r
    · exact .fail _ _
    · exact .fail _ _
    · exact .pure r
  | member mark object property iho =>
    rw [Traced.evaluate, Scriptlet.evaluate]
    exact .valued (step.bind fun _ => iho.bind fun v => .lift _ _)
  | method mark object name args iho ih =>
    rw [Traced.evaluate, Scriptlet.evaluate]
    exact .valued (step.bind fun _ => iho.bind fun v =>
      (evaluateList_of_forall ih).bind fun ws => .lift _ _)

theorem runBody (body : List (Clause Position)) :
    Tells ctx (Traced.runBody traced ctx body vars) (runBody caller ctx body vars) := by
  induction body generalizing vars with
  | nil => exact .pure _
  | cons c body ih =>
    cases c with
    | assign mark name value =>
      exact step.bind fun _ => (evaluate hcallers value).bind fun v => .scope _ ih
    | ret mark value =>
      rw [Traced.runBody, Scriptlet.runBody]
      refine step.bind fun _ => ?_
      split
      · exact .fail _ _
      · exact (evaluate hcallers value).bind fun v => .pure _

end Bodies

/-! ### Calls and statements -/

/-- **Events tell what a call does**: the calls that are open and those that may still be opened
make up the limit. -/
theorem call {depth : Nat} (hdepth : depth + ctx.calls.length = ctx.limits.depth) :
    Callers ctx (Traced.call depth ctx) (call depth ctx) := by
  induction depth generalizing ctx with
  | zero =>
    intro name site f vs
    rw [Traced.call, Scriptlet.call]
    exact .fail _ _
  | succ depth ih =>
    intro name site f vs
    have hrecord : ctx.limits.depth - depth = ctx.calls.length + 1 := by omega
    -- inside the call one more is open, and one less may be
    have hinside : Callers (ctx.enter name site) (Traced.call depth (ctx.enter name site))
        (Scriptlet.call depth (ctx.enter name site)) := by
      refine ih ?_
      show depth + (ctx.calls.length + 1) = ctx.limits.depth
      omega
    rw [Traced.call, Scriptlet.call, hrecord]
    refine enter (by omega) ((runBody hinside f.body).bind fun p => ?_)
    rcases p with ⟨vars, _ | v⟩
    · exact @fail _ (ctx.enter name site) _ _
    · exact .pure v

theorem caller (hcalls : ctx.calls = []) : Callers ctx (Traced.caller ctx) ctx.caller :=
  call (by rw [hcalls]; rfl)

section Statements

variable (hcalls : ctx.calls = [])

include hcalls

theorem holds (vars : Bindings) (construct : Construct) (condition : Expr Position) :
    Tells ctx (Traced.holds ctx vars construct condition) (holds ctx vars construct condition) := by
  refine (evaluate (caller hcalls) condition).bind fun v => ?_
  cases v with
  | bool b => exact .pure b
  | invalid | number | text | array => exact .fail _ _

/-- The events of a loop are those of its rounds. The induction is on the rounds that are left. -/
theorem loopUpTo (condition : Expr Position) (body : List (Clause Position)) (rounds : Nat)
    (vars : Bindings) :
    Tells ctx (Traced.loopUpTo ctx condition body rounds vars)
      (loopUpTo rounds ctx condition body vars) := by
  induction rounds generalizing vars with
  | zero => exact fun _ => ⟨rfl, rfl, fun hopen => ⟨ctx.calls, hopen⟩⟩
  | succ rounds ih =>
    rw [Traced.loopUpTo, Scriptlet.loopUpTo, round, Eval.bind_assoc]
    refine (holds hcalls vars .loop condition).bind fun b => ?_
    cases b with
    | false => exact .pure vars
    | true =>
      rw [if_pos rfl, if_pos rfl, Eval.bind_assoc]
      exact (runBody (caller hcalls) body).bind fun p => ih p.1

end Statements

/-- **What a statement does is what its events tell.** -/
theorem runStatement (settings : Settings) (rounds : Nat) (w : World) (s : Stmt Position) :
    Tells (settings.context w) (Traced.runStatement settings rounds w s)
      (runStatement (Scriptlet.loopUpTo rounds) settings w s) := by
  have hcalls : (settings.context w).calls = [] := rfl
  cases s with
  | clause c => exact (runBody (caller hcalls) [c]).bind fun p => .pure _
  | func name f => exact step.bind fun _ => .pure _
  | cond mark condition body =>
    refine step.bind fun _ => (holds hcalls w.bindings .cond condition).bind fun b => ?_
    cases b with
    | false => exact .pure w
    | true => exact (runBody (caller hcalls) body).bind fun p => .pure _
  | loop mark condition body =>
    exact step.bind fun _ => (loopUpTo hcalls condition body rounds w.bindings).bind fun vars =>
      .pure _

/-- What is told in one context is told in another one with the same limit and the same calls. -/
theorem congr {ctx' : Context} (h : Tells ctx x y) (hlimit : ctx.limits.depth = ctx'.limits.depth)
    (hcalls : ctx.calls = ctx'.calls) : Tells ctx' x y :=
  fun m => ⟨(h m).outcome, (h m).meter, hlimit ▸ hcalls ▸ (h m).leavesOpen⟩

/-- **Events tell what running statements does.** -/
theorem runStatements (settings : Settings) (rounds : Nat) (w : World)
    (ss : List (Stmt Position)) :
    Tells (settings.context w) (Traced.runStatements settings rounds w ss)
      (runStatements (Scriptlet.loopUpTo rounds) settings w ss) := by
  induction ss generalizing w with
  | nil => exact .pure w
  | cons s ss ih =>
    exact (runStatement settings rounds w s).bind fun w' => (ih w').congr rfl rfl

end Tells

/-! ### Runs with their events -/

section Runs

variable (s : Settings) (w : World) (script : Script) (rounds : Nat)

/-- **What happens in the course of a run** whose loops are cut off after a number of rounds. -/
def eventsUpTo : List Event :=
  (Traced.runStatements s rounds w script.statements ⟨0, []⟩).2

/-- The run with its events is the run. -/
theorem Traced.run_runStatements :
    (Traced.runStatements s rounds w script.statements ⟨0, []⟩).1.run =
      runUpTo s w script rounds := by
  rw [runUpTo, (Tells.runStatements s rounds w script.statements _).outcome]

/-- The meter of a run is what its events make of an empty one. -/
theorem meter_runUpTo :
    (runUpTo s w script rounds).meter = Meter.after ⟨0, []⟩ (eventsUpTo s w script rounds) := by
  rw [runUpTo, Outcome.meter_run]
  exact (Tells.runStatements s rounds w script.statements _).meter

end Runs

/-- What happens when a function that returns its argument is defined, and called once. -/
example :
    eventsUpTo ⟨.standard, none⟩ .empty
      ⟨[], [.func [102] ⟨.none, [[120]], [.ret .none (.var .none [120])]⟩,
        .clause (.assign .none [97] (.call .none [102] [.bool .none true]))]⟩ 0 =
      [.step, .step, .step, .step, .value (.bool true),
        .scope (Table.empty.insert [120] (.bool true)), .call ⟨[102], 1⟩, .step, .step,
        .value (.bool true), .value (.bool true),
        .scope (Table.empty.insert [97] (.bool true))] := by
  rfl

end Scriptlet
