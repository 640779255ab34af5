import Scriptlet.Proofs.Running.Basic
import Scriptlet.Proofs.Tree

/-!
# Why runs stop

An evaluation **stops for** reasons of a certain sort (`StopsFor`) when it has no other reason to
stop, wherever the meter stands. This is what one shows of the parts of a script to know it of the
whole.

Most reasons need no knowledge of the script: the run is interrupted, too many calls are open, or an
operation is applied to values that it does not take. Faults of this sort are *plain*. The others
can be told from the text. A call fails by itself when its function is not there or takes
another number of arguments, and which calls an expression can make is plain to see in it
(`Expr.calls`); a function fails to return only if it has no return; and a return fails only outside
of functions.

A run that stops does so in one of its statements, after those before it have gone through; and what
functions there are at that point is told by the definitions among them.
-/

namespace Scriptlet

variable {α β : Type}

/-! ### Faults -/

/-- The function whose call went wrong: it is not there, or takes another number of arguments. -/
def Fault.callee? : Fault → Option Bytes
  | .undefinedFunction name => some name
  | .functionArity name _ _ => some name
  | _ => none

/-- **A plain fault** is neither a function without a return, nor a return without a function, nor a
call that went wrong. -/
structure Fault.IsPlain (fault : Fault) : Prop where
  kind : fault.kind ≠ .structural
  callee : fault.callee? = none

/-- **A fault of values** is one of an operation that does not take the values it is applied to. -/
structure Fault.OfValues (fault : Fault) : Prop where
  structural : fault.kind ≠ .structural
  limit : fault.kind ≠ .limit
  callee : fault.callee? = none

theorem Fault.OfValues.isPlain {fault : Fault} (h : fault.OfValues) : fault.IsPlain :=
  ⟨h.structural, h.callee⟩

/-- Operators fail only for their operands. -/
theorem Value.ofValues_of_combine {v w : Value} {op : Operator} {fault : Fault}
    (h : v.combine op w = .error fault) : fault.OfValues := by
  unfold Value.combine at h
  split at h
  · cases h
  · cases h
    exact ⟨nofun, nofun, rfl⟩

/-- Members fail only for their object. -/
theorem Value.ofValues_of_member {v : Value} {property : Bytes} {fault : Fault}
    (h : v.member property = .error fault) : fault.OfValues := by
  unfold Value.member at h
  split at h
  · cases h
  · cases h
    exact ⟨nofun, nofun, rfl⟩

/-- Methods fail only for their object and their arguments. -/
theorem Value.ofValues_of_method {v : Value} {name : Bytes} {ws : List Value} {fault : Fault}
    (h : v.method name ws = .error fault) : fault.OfValues := by
  unfold Value.method at h
  split at h
  · split at h
    · split at h
      · cases h
      · cases h
        exact ⟨nofun, nofun, rfl⟩
      · cases h
        exact ⟨nofun, nofun, rfl⟩
    · cases h
      exact ⟨nofun, nofun, rfl⟩
  · cases h
    exact ⟨nofun, nofun, rfl⟩

theorem Value.ofValues_of_at? {v w : Value} {fault : Fault}
    (h : v.at? w = .error (.object fault) ∨ v.at? w = .error (.place fault)) : fault.OfValues := by
  unfold Value.at? at h
  split at h
  · split at h
    · split at h
      · rcases h with h | h <;> cases h
      · rcases h with h | h <;> cases h
        exact ⟨nofun, nofun, rfl⟩
    · rcases h with h | h <;> cases h
      exact ⟨nofun, nofun, rfl⟩
  · rcases h with h | h <;> cases h
    exact ⟨nofun, nofun, rfl⟩

/-! ### Calls -/

/-- The call of a function where it stands: how many arguments it has, and its position. -/
structure CallSite where
  mark : Position
  name : Bytes
  args : Nat

/-- What is wrong with a call by itself, if anything. -/
def CallSite.fault? (known : Table (Func Position)) (c : CallSite) : Option Fault :=
  match known.get? c.name with
  | none => some (.undefinedFunction c.name)
  | some f =>
    if c.args = f.params.length then none
    else some (.functionArity c.name f.params.length c.args)

/-- A call that fails by itself names the function that was called, and its fault is not structural.
-/
theorem CallSite.callee?_of_fault? {known : Table (Func Position)} {c : CallSite} {fault : Fault}
    (h : c.fault? known = some fault) : fault.callee? = some c.name ∧ fault.kind ≠ .structural := by
  unfold CallSite.fault? at h
  split at h
  · cases h
    exact ⟨rfl, nofun⟩
  · split at h
    · cases h
    · cases h
      exact ⟨rfl, nofun⟩

/-- Whether a call fails by itself depends only on the function of its name. -/
theorem CallSite.fault?_congr {known known' : Table (Func Position)} {c : CallSite}
    (h : known.get? c.name = known'.get? c.name) : c.fault? known = c.fault? known' := by
  rw [CallSite.fault?, CallSite.fault?, h]

mutual

/-- The calls in an expression. -/
def Expr.calls : Expr Position → List CallSite
  | .var .. | .bool .. | .number .. | .text .. => []
  | .array _ elements => Expr.callsList elements
  | .binary _ _ left right => left.calls ++ right.calls
  | .call mark name args => ⟨mark, name, args.length⟩ :: Expr.callsList args
  | .index _ object place => object.calls ++ place.calls
  | .member _ object _ => object.calls
  | .method _ object _ args => object.calls ++ Expr.callsList args

/-- The calls in expressions. -/
def Expr.callsList : List (Expr Position) → List CallSite
  | [] => []
  | e :: es => e.calls ++ Expr.callsList es

end

/-- The calls in a clause. -/
def Clause.calls : Clause Position → List CallSite
  | .assign _ _ value | .ret _ value => value.calls

/-- The clauses that a statement of the top level runs by itself. -/
def Stmt.clauses : Stmt α → List (Clause α)
  | .clause c => [c]
  | .func _ _ => []
  | .cond _ _ body | .loop _ _ body => body

/-- The calls that a statement of the top level makes by itself. -/
def Stmt.calls : Stmt Position → List CallSite
  | .clause c => c.calls
  | .func _ _ => []
  | .cond _ condition body | .loop _ condition body =>
    condition.calls ++ body.flatMap Clause.calls

/-- The call that an expression is, if it is one. -/
def Expr.site? : Expr Position → Option CallSite
  | .call mark name args => some ⟨mark, name, args.length⟩
  | _ => none

/-- The calls in an expression are those among its parts. -/
theorem Expr.calls_eq_filterMap (e : Expr Position) : e.calls = e.parts.filterMap Expr.site? := by
  have hlist : ∀ es : List (Expr Position), (∀ e ∈ es, e.calls = e.parts.filterMap Expr.site?) →
      Expr.callsList es = (Expr.partsList es).filterMap Expr.site? := by
    intro es
    induction es with
    | nil => exact fun _ => rfl
    | cons e es ihes =>
      intro ih
      rw [callsList, partsList, List.filterMap_append, ih e List.mem_cons_self,
        ihes fun x hx => ih x (List.mem_cons_of_mem _ hx)]
  induction e with
  | var | bool | number | text => rfl
  | array mark elements ih => exact hlist elements ih
  | binary mark op left right ihl ihr =>
    rw [calls, ihl, ihr, ← List.filterMap_append]
    rfl
  | call mark name args ih =>
    rw [calls, hlist args ih]
    rfl
  | index mark object place iho ihp =>
    rw [calls, iho, ihp, ← List.filterMap_append]
    rfl
  | member mark object property iho => exact iho
  | method mark object name args iho ih =>
    rw [calls, iho, hlist args ih, ← List.filterMap_append]
    rfl

theorem Clause.flatMap_calls_eq_filterMap (body : List (Clause Position)) :
    body.flatMap Clause.calls = (body.flatMap Clause.parts).filterMap Expr.site? := by
  rw [List.filterMap_flatMap]
  congr 1
  funext c
  cases c <;> exact Expr.calls_eq_filterMap _

/-- The calls of a statement are those among its parts. -/
theorem Stmt.calls_eq_filterMap (s : Stmt Position) : s.calls = s.parts.filterMap Expr.site? := by
  cases s with
  | clause c => cases c <;> exact Expr.calls_eq_filterMap _
  | func name f => rfl
  | cond mark condition body | loop mark condition body =>
    rw [calls, parts, List.filterMap_append, Expr.calls_eq_filterMap,
      Clause.flatMap_calls_eq_filterMap]

/-! ### What can be reported at an expression -/

/-- **What can be reported at an expression**, given the functions that can be called: it has no
value by itself, or its value is of no use where it stands. -/
inductive Expr.Faults (known : Table (Func Position)) : Expr Position → Fault → Prop where
  /-- A variable has no value. -/
  | var {mark : Position} {name : Bytes} : Faults known (.var mark name) (.undefinedVariable name)
  /-- An operator does not take the values of its operands. -/
  | binary {mark : Position} {op : Operator} {left right : Expr Position} {v w : Value}
    {fault : Fault} : v.combine op w = .error fault →
    Faults known (.binary mark op left right) fault
  /-- A call goes wrong by itself. -/
  | call {mark : Position} {name : Bytes} {args : List (Expr Position)} {fault : Fault} :
    CallSite.fault? known ⟨mark, name, args.length⟩ = some fault →
    Faults known (.call mark name args) fault
  /-- A value has no such property. -/
  | member {mark : Position} {object : Expr Position} {property : Bytes} {v : Value}
    {fault : Fault} : v.member property = .error fault →
    Faults known (.member mark object property) fault
  /-- A value has no such method, or the method fails. -/
  | method {mark : Position} {object : Expr Position} {name : Bytes} {args : List (Expr Position)}
    {v : Value} {ws : List Value} {fault : Fault} : v.method name ws = .error fault →
    Faults known (.method mark object name args) fault
  /-- The value is indexed and cannot be. -/
  | object {e : Expr Position} {v w : Value} {fault : Fault} : v.at? w = .error (.object fault) →
    Faults known e fault
  /-- The value is an index and names no element. -/
  | place {e : Expr Position} {v w : Value} {fault : Fault} : v.at? w = .error (.place fault) →
    Faults known e fault
  /-- The value is a condition and no truth value. -/
  | condition {e : Expr Position} {construct : Construct} {got : Kind} :
    Faults known e (.condition construct got)

/-- All of this is a matter of values, but for a call that goes wrong. -/
theorem Expr.Faults.ofValues_or_site {known : Table (Func Position)} {e : Expr Position}
    {fault : Fault} (h : e.Faults known fault) :
    fault.OfValues ∨ ∃ c, e.site? = some c ∧ c.mark = e.mark ∧ c.fault? known = some fault := by
  cases h with
  | var => exact .inl ⟨nofun, nofun, rfl⟩
  | binary h => exact .inl (Value.ofValues_of_combine h)
  | call h => exact .inr ⟨_, rfl, rfl, h⟩
  | member h => exact .inl (Value.ofValues_of_member h)
  | method h => exact .inl (Value.ofValues_of_method h)
  | object h => exact .inl (Value.ofValues_of_at? (.inl h))
  | place h => exact .inl (Value.ofValues_of_at? (.inr h))
  | condition => exact .inl ⟨nofun, nofun, rfl⟩

/-! ### Reasons to stop -/

/-- **An evaluation stops only for reasons of a sort.** -/
def StopsFor (E : Stop → Prop) (x : Eval α) : Prop :=
  ∀ m s n, x m = .stopped s n → E s

variable {E : Stop → Prop}

namespace StopsFor

variable {x : Eval α} {f : α → Eval β}

protected theorem pure (a : α) : StopsFor E (pure a : Eval α) :=
  fun _ _ _ h => by cases h

/-- One evaluation after another stops for the reasons of both. -/
protected theorem bind (hx : StopsFor E x) (hf : ∀ a, StopsFor E (f a)) :
    StopsFor E (x >>= f) := by
  intro m s n h
  rcases hm : x m with ⟨a, m'⟩ | ⟨s', m'⟩
  · rw [Eval.bind_of_done hm] at h
    exact hf a m' s n h
  · rw [Eval.bind_of_stopped hm] at h
    cases h
    exact hx m s n hm

/-- Noting a call never stops. -/
theorem noteCall (record : CallRecord) : StopsFor E (noteCall record) :=
  fun _ _ _ h => by cases h

/-- A failure is a reason of its own. -/
theorem fail {ctx : Context} {fault : Fault} {position : Position}
    (h : E (.failed ⟨fault, position, ctx.calls⟩)) :
    StopsFor E (ctx.fail fault position : Eval α) :=
  fun _ _ _ hstop => by cases hstop; exact h

theorem lift {ctx : Context} {position : Position} {r : Except Fault Value}
    (h : ∀ fault, r = .error fault → E (.failed ⟨fault, position, ctx.calls⟩)) :
    StopsFor E (ctx.lift position r) := by
  cases r with
  | ok v => exact .pure v
  | error fault => exact .fail (h fault rfl)

end StopsFor

/-- The reasons that any script has to reckon with, when certain calls are open. -/
structure Reckons (E : Stop → Prop) (calls : List Frame) : Prop where
  cancelled : E .cancelled
  plain : ∀ fault position, fault.IsPlain → E (.failed ⟨fault, position, calls⟩)

namespace Reckons

variable {ctx : Context}

theorem step (h : Reckons E ctx.calls) : StopsFor E ctx.step := by
  intro m s n hstop
  dsimp only [Context.step] at hstop
  split at hstop
  · split at hstop
    · cases hstop
      exact h.cancelled
    · cases hstop
  · cases hstop
    exact h.plain _ _ ⟨nofun, rfl⟩

end Reckons

/-! ### Expressions and bodies -/

/-- **Reasons to stop cover some expressions** when they allow for all that evaluating these can do
in a context: for a step, for what can be reported at them, and for the calls that they make. -/
structure Covers (E : Stop → Prop) (caller : Caller) (ctx : Context)
    (parts : List (Expr Position)) : Prop where
  step : StopsFor E ctx.step
  faults : ∀ e ∈ parts, ∀ fault, e.Faults ctx.functions fault →
    E (.failed ⟨fault, e.mark, ctx.calls⟩)
  calls : ∀ site name args, .call site name args ∈ parts → ∀ f vs,
    ctx.functions.get? name = some f → StopsFor E (caller name site f vs)

namespace Covers

variable {caller : Caller} {ctx : Context} {vars : Bindings} {parts parts' : List (Expr Position)}

/-- What covers some parts covers fewer. -/
theorem mono (h : Covers E caller ctx parts) (hsub : parts' ⊆ parts) :
    Covers E caller ctx parts' :=
  ⟨h.step, fun e he => h.faults e (hsub he), fun _ _ _ hc => h.calls _ _ _ (hsub hc)⟩

theorem tail {e : Expr Position} (h : Covers E caller ctx (e :: parts)) :
    Covers E caller ctx parts :=
  h.mono (List.subset_cons_self e parts)

theorem append_left (h : Covers E caller ctx (parts ++ parts')) : Covers E caller ctx parts :=
  h.mono (List.subset_append_left parts parts')

theorem append_right (h : Covers E caller ctx (parts ++ parts')) : Covers E caller ctx parts' :=
  h.mono (List.subset_append_right parts parts')

/-- What covers an expression allows for what can be reported at it. -/
theorem own {e : Expr Position} (h : Covers E caller ctx e.parts) {fault : Fault}
    (hfault : e.Faults ctx.functions fault) : E (.failed ⟨fault, e.mark, ctx.calls⟩) :=
  h.faults e e.mem_parts fault hfault

/-- A list of expressions stops for the reasons of its members, from left to right. -/
theorem evaluateList_of_forall {es : List (Expr Position)}
    (ih : ∀ e ∈ es, Covers E caller ctx e.parts → StopsFor E (evaluate caller ctx vars e))
    (h : Covers E caller ctx (Expr.partsList es)) :
    StopsFor E (evaluateList caller ctx vars es) := by
  induction es with
  | nil =>
    rw [evaluateList]
    exact .pure _
  | cons e es ihes =>
    rw [evaluateList]
    exact (ih e List.mem_cons_self h.append_left).bind fun v =>
      (ihes (fun x hx => ih x (List.mem_cons_of_mem _ hx)) h.append_right).bind fun vs => .pure _

/-- **An expression stops only for reasons that cover its parts.** -/
protected theorem evaluate {e : Expr Position} (h : Covers E caller ctx e.parts) :
    StopsFor E (evaluate caller ctx vars e) := by
  induction e with
  | var mark name =>
    rw [Scriptlet.evaluate]
    refine h.step.bind fun _ => ?_
    split
    · exact .pure _
    · exact .fail (h.own .var)
  | bool | number | text =>
    rw [Scriptlet.evaluate]
    exact h.step.bind fun _ => .pure _
  | array mark elements ih =>
    rw [Scriptlet.evaluate]
    exact h.step.bind fun _ => (evaluateList_of_forall ih h.tail).bind fun vs => .pure _
  | binary mark op left right ihl ihr =>
    rw [Scriptlet.evaluate]
    exact h.step.bind fun _ => (ihl h.tail.append_left).bind fun v =>
      (ihr h.tail.append_right).bind fun w => .lift fun _ hfault => h.own (.binary hfault)
  | call mark name args ih =>
    rw [Scriptlet.evaluate]
    refine h.step.bind fun _ => ?_
    split
    · rename_i hnone
      exact .fail (h.own (.call (by rw [CallSite.fault?, hnone])))
    · rename_i f hf
      split
      · exact (evaluateList_of_forall ih h.tail).bind fun vs =>
          h.calls mark name args List.mem_cons_self f vs hf
      · rename_i hlength
        refine .fail (h.own (.call ?_))
        simp only [CallSite.fault?, hf, if_neg hlength]
  | index mark object place iho ihp =>
    -- a fault of an index is blamed on one of its two parts, which has reasons of its own
    have hobject := h.tail.append_left
    have hplace := h.tail.append_right
    rw [Scriptlet.evaluate]
    refine h.step.bind fun _ => (iho hobject).bind fun v => (ihp hplace).bind fun w => ?_
    split
    · exact .pure _
    · rename_i fault hfault
      exact .fail (hobject.own (.object hfault))
    · rename_i fault hfault
      exact .fail (hplace.own (.place hfault))
  | member mark object property iho =>
    rw [Scriptlet.evaluate]
    exact h.step.bind fun _ => (iho h.tail).bind fun v =>
      .lift fun _ hfault => h.own (.member hfault)
  | method mark object name args iho ih =>
    rw [Scriptlet.evaluate]
    exact h.step.bind fun _ => (iho h.tail.append_left).bind fun v =>
      (evaluateList_of_forall ih h.tail.append_right).bind fun ws =>
        .lift fun _ hfault => h.own (.method hfault)

/-- A body stops for the reasons that its expressions do, or for a return outside of functions. -/
protected theorem runBody {body : List (Clause Position)}
    (h : Covers E caller ctx (body.flatMap Clause.parts))
    (hret : ctx.calls = [] → ∀ mark value, .ret mark value ∈ body →
      E (.failed ⟨.returnOutside, mark, ctx.calls⟩)) :
    StopsFor E (runBody caller ctx body vars) := by
  induction body generalizing vars with
  | nil =>
    rw [Scriptlet.runBody]
    exact .pure _
  | cons c body ih =>
    have hvalue := h.append_left
    cases c with
    | assign mark name value =>
      rw [Scriptlet.runBody]
      refine h.step.bind fun _ => hvalue.evaluate.bind fun v =>
        ih h.append_right fun hempty mark value hmem => ?_
      exact hret hempty mark value (List.mem_cons_of_mem _ hmem)
    | ret mark value =>
      rw [Scriptlet.runBody]
      refine h.step.bind fun _ => ?_
      split
      · rename_i hempty
        exact .fail (hret (List.isEmpty_iff.1 hempty) mark value List.mem_cons_self)
      · exact hvalue.evaluate.bind fun v => .pure _

end Covers

/-! ### Plain reasons -/

/-- What calls can fail with by themselves in a context is a reason of a sort. -/
def SitesAllow (E : Stop → Prop) (ctx : Context) (sites : List CallSite) : Prop :=
  ∀ c ∈ sites, ∀ fault, c.fault? ctx.functions = some fault →
    E (.failed ⟨fault, c.mark, ctx.calls⟩)

/-- Reasons that any script has to reckon with cover expressions if they allow for their calls. -/
theorem Reckons.covers {caller : Caller} {ctx : Context} {parts : List (Expr Position)}
    (hreckon : Reckons E ctx.calls)
    (hcall : ∀ name site f vs, ctx.functions.get? name = some f →
      StopsFor E (caller name site f vs))
    (hsites : SitesAllow E ctx (parts.filterMap Expr.site?)) : Covers E caller ctx parts := by
  refine ⟨hreckon.step, fun e he fault hfault => ?_, fun site name _ _ f vs => hcall name site f vs⟩
  rcases hfault.ofValues_or_site with hvalues | ⟨c, hc, hmark, hfault⟩
  · exact hreckon.plain fault e.mark hvalues.isPlain
  · exact hmark ▸ hsites c (List.mem_filterMap.2 ⟨e, he, hc⟩) fault hfault

/-- A body with a return returns, unless it stops. -/
theorem exists_of_runBody {caller : Caller} {ctx : Context} {body : List (Clause Position)}
    {vars vars' : Bindings} {r : Option Value} {m n : Meter} {mark : Position}
    {value : Expr Position} (hret : .ret mark value ∈ body)
    (h : runBody caller ctx body vars m = .done (vars', r) n) : ∃ v, r = some v := by
  induction body generalizing vars m with
  | nil => cases hret
  | cons c body ih =>
    cases c with
    | assign mark' name value' =>
      rw [runBody] at h
      obtain ⟨_, _, -, h⟩ := Eval.bind_eq_done_iff.1 h
      obtain ⟨_, _, -, h⟩ := Eval.bind_eq_done_iff.1 h
      rcases List.mem_cons.1 hret with hret | hret
      · cases hret
      · exact ih hret h
    | ret mark' value' =>
      rw [runBody] at h
      obtain ⟨_, _, -, h⟩ := Eval.bind_eq_done_iff.1 h
      split at h
      · cases h
      · obtain ⟨v, _, -, h⟩ := Eval.bind_eq_done_iff.1 h
        cases h
        exact ⟨v, rfl⟩

/-! ### Functions -/

theorem functions_enter_enter (ctx : Context) (name name' : Bytes) (site site' : Position) :
    ((ctx.enter name site).enter name' site').functions = (ctx.enter name site).functions := by
  simp only [Context.enter]
  split <;> rfl

/-- **A function keeps to reasons of a sort**: it has a return, and whatever its calls can fail with
by themselves, given the functions that its body knows, is a reason of that sort. -/
structure Func.KeepsTo (E : Stop → Prop) (inner : Table (Func Position)) (f : Func Position) :
    Prop where
  returns : ∃ mark value, .ret mark value ∈ f.body
  calls : ∀ c ∈ f.body.flatMap Clause.calls, ∀ fault, c.fault? inner = some fault →
    ∀ calls, calls ≠ [] → E (.failed ⟨fault, c.mark, calls⟩)

/-- **Why a call stops.** What its body knows stays the same through all the calls that are made on
the way. -/
theorem stopsFor_call (hreckon : ∀ calls, Reckons E calls) {inner : Table (Func Position)}
    (hinner : ∀ name f, inner.get? name = some f → f.KeepsTo E inner) {d : Nat} {ctx : Context}
    (name : Bytes) (site : Position) (hctx : (ctx.enter name site).functions = inner)
    {f : Func Position} (hf : f.KeepsTo E inner) (args : List Value) :
    StopsFor E (call d ctx name site f args) := by
  induction d generalizing ctx name site f args with
  | zero =>
    rw [call]
    exact .fail ((hreckon _).plain _ _ ⟨nofun, rfl⟩)
  | succ d ih =>
    have hbody : StopsFor E (runBody (call d (ctx.enter name site)) (ctx.enter name site) f.body
        (Table.empty.insertAll (f.params.zip args))) := by
      refine Covers.runBody ((hreckon _).covers (fun name' site' g vs hg => ?_) ?_) ?_
      · refine ih name' site' ?_ (hinner name' g (hctx ▸ hg)) vs
        rw [functions_enter_enter, hctx]
      · rw [← Clause.flatMap_calls_eq_filterMap]
        intro c hc fault hfault
        exact hf.calls c hc fault (hctx ▸ hfault) _ (List.cons_ne_nil _ _)
      · exact fun hempty => absurd hempty (List.cons_ne_nil _ _)
    obtain ⟨mark, value, hret⟩ := hf.returns
    rw [call]
    refine (StopsFor.noteCall _).bind fun _ m s n hstop => ?_
    -- the body is over only with a value, so there is no missing return to report
    rcases hm : runBody (call d (ctx.enter name site)) (ctx.enter name site) f.body
        (Table.empty.insertAll (f.params.zip args)) m with ⟨⟨vars, r⟩, m'⟩ | ⟨s', m'⟩
    · obtain ⟨v, rfl⟩ := exists_of_runBody hret hm
      rw [Eval.bind_of_done hm] at hstop
      cases hstop
    · rw [Eval.bind_of_stopped hm] at hstop
      cases hstop
      exact hbody m s n hm

/-! ### Statements -/

/-- A loop stops for the reasons of its rounds, or never ends. A run that is over is a finite number
of rounds. -/
theorem stopsFor_loop {ctx : Context} {condition : Expr Position} {body : List (Clause Position)}
    (hunfinished : E .unfinished)
    (hround : ∀ vars, StopsFor E (round ctx condition body vars)) (vars : Bindings) :
    StopsFor E (loop ctx condition body vars) := by
  intro m s n h
  rcases ho : loop? ctx condition body vars m with _ | o
  · rw [loop, ho] at h
    cases h
    exact hunfinished
  · rw [loop_eq_of_loop? ho] at h
    refine loop?_induction (Q := fun _ _ o => ∀ s n, o = .stopped s n → E s) ?_ ?_ ?_ ho s n h
    · rintro vars m s' n' hstop s n ⟨⟩
      exact hround vars m s' n' hstop
    · rintro vars m n' - s n ⟨⟩
    · exact fun _ ih => ih

namespace Covers

variable {ctx : Context} {condition : Expr Position} {vars : Bindings}

/-- Deciding a condition stops for the reasons of its expression, or because its value is no truth
value. -/
protected theorem holds (h : Covers E ctx.caller ctx condition.parts) {construct : Construct} :
    StopsFor E (holds ctx vars construct condition) := by
  refine h.evaluate.bind fun v => ?_
  split
  · exact .pure _
  · exact .fail (h.own .condition)

/-- **A statement of the top level stops** for the reasons that its expressions do, for a return, or
because a loop goes on for good. -/
protected theorem runStatement {settings : Settings} {w : World} {stmt : Stmt Position}
    (h : Covers E (settings.context w).caller (settings.context w) stmt.parts)
    (hret : ∀ mark value, .ret mark value ∈ stmt.clauses → E (.failed ⟨.returnOutside, mark, []⟩))
    (hunfinished : E .unfinished) : StopsFor E (runStatement loop settings w stmt) := by
  cases stmt with
  | clause c =>
    have hbody : Covers E (settings.context w).caller (settings.context w)
        ([c].flatMap Clause.parts) := by
      rw [List.flatMap_singleton]
      exact h
    rw [Scriptlet.runStatement]
    exact (hbody.runBody fun _ => hret).bind fun r => .pure _
  | func name f =>
    rw [Scriptlet.runStatement]
    exact h.step.bind fun _ => .pure _
  | cond mark condition body =>
    rw [Scriptlet.runStatement]
    refine h.step.bind fun _ => h.append_left.holds.bind fun b => ?_
    split
    · exact (h.append_right.runBody fun _ => hret).bind fun r => .pure _
    · exact .pure _
  | loop mark condition body =>
    rw [Scriptlet.runStatement]
    refine h.step.bind fun _ =>
      (stopsFor_loop hunfinished (fun vars => ?_) w.bindings).bind fun r => .pure _
    refine h.append_left.holds.bind fun b => ?_
    split
    · exact (h.append_right.runBody fun _ => hret).bind fun r => .pure _
    · exact .pure _

end Covers

/-- **Why a statement of the top level stops**: as its calls do, if it has no return. -/
theorem stopsFor_runStatement {settings : Settings} {w : World}
    (hreckon : ∀ calls, Reckons E calls)
    (hcall : ∀ name site f vs, w.functions.get? name = some f →
      StopsFor E ((settings.context w).caller name site f vs))
    (hunfinished : E .unfinished) {stmt : Stmt Position}
    (hsites : SitesAllow E (settings.context w) stmt.calls)
    (hret : ∀ mark value, .ret mark value ∉ stmt.clauses) :
    StopsFor E (runStatement loop settings w stmt) := by
  rw [Stmt.calls_eq_filterMap] at hsites
  exact Covers.runStatement ((hreckon _).covers hcall hsites)
    (fun mark value hmem => absurd hmem (hret mark value)) hunfinished

/-! ### Where a run stops -/

/-- The functions after a statement, which is a matter of its being a definition. -/
def Stmt.define (known : Table (Func α)) : Stmt α → Table (Func α)
  | .func name f => known.insert name f
  | _ => known

/-- A function that is known after a statement was known before it, or is defined by it. -/
theorem get?_define {known : Table (Func α)} {stmt : Stmt α} {name : Bytes} {f : Func α}
    (h : (stmt.define known).get? name = some f) :
    known.get? name = some f ∨ stmt = .func name f := by
  cases stmt with
  | func name' f' =>
    rw [Stmt.define, Table.get?_insert] at h
    split at h
    · rename_i hname
      exact .inr (by rw [hname, Option.some.inj h])
    · exact .inl h
  | clause | cond | loop => exact .inl h

/-- A function that is there after statements was there before, or they define it. -/
theorem get?_foldl_define {known : Table (Func α)} {ss : List (Stmt α)} {name : Bytes}
    {f : Func α} (h : (ss.foldl Stmt.define known).get? name = some f) :
    known.get? name = some f ∨ .func name f ∈ ss := by
  induction ss generalizing known with
  | nil => exact .inl h
  | cons stmt ss ih =>
    rcases ih h with h | h
    · rcases get?_define h with h | h
      · exact .inl h
      · exact .inr (h ▸ List.mem_cons_self)
    · exact .inr (List.mem_cons_of_mem _ h)

/-- After a statement the functions are those that it defines and those before it, whatever else it
does. -/
theorem functions_of_runStatement {looper : Looper} {settings : Settings} {w w' : World}
    {stmt : Stmt Position} {m n : Meter}
    (h : runStatement looper settings w stmt m = .done w' n) :
    w'.functions = stmt.define w.functions := by
  cases stmt with
  | clause c =>
    rw [runStatement] at h
    -- bodies change variables only
    obtain ⟨⟨vars, r⟩, _, -, h⟩ := Eval.bind_eq_done_iff.1 h
    cases h
    rfl
  | func name f =>
    rw [runStatement] at h
    obtain ⟨_, _, -, h⟩ := Eval.bind_eq_done_iff.1 h
    cases h
    rfl
  | cond mark condition body =>
    rw [runStatement] at h
    obtain ⟨_, _, -, h⟩ := Eval.bind_eq_done_iff.1 h
    obtain ⟨b, _, -, h⟩ := Eval.bind_eq_done_iff.1 h
    cases b with
    | false =>
      cases h
      rfl
    | true =>
      obtain ⟨⟨vars, r⟩, _, -, h⟩ := Eval.bind_eq_done_iff.1 h
      cases h
      rfl
  | loop mark condition body =>
    rw [runStatement] at h
    obtain ⟨_, _, -, h⟩ := Eval.bind_eq_done_iff.1 h
    obtain ⟨vars, _, -, h⟩ := Eval.bind_eq_done_iff.1 h
    cases h
    rfl

/-- The functions after statements are those that they define, over those that were there. -/
theorem functions_of_runStatements {looper : Looper} {settings : Settings} {w w' : World}
    {ss : List (Stmt Position)} {m n : Meter}
    (h : runStatements looper settings w ss m = .done w' n) :
    w'.functions = ss.foldl Stmt.define w.functions := by
  induction ss generalizing w m with
  | nil =>
    cases h
    rfl
  | cons s ss ih =>
    rw [runStatements] at h
    obtain ⟨_, _, hs, h⟩ := Eval.bind_eq_done_iff.1 h
    rw [ih h, functions_of_runStatement hs, List.foldl_cons]

/-- **Statements that stop do so in one of them**, after those before it. -/
theorem exists_of_runStatements_stopped {looper : Looper} {settings : Settings} {w : World}
    {ss : List (Stmt Position)} {m n : Meter} {s : Stop}
    (h : runStatements looper settings w ss m = .stopped s n) :
    ∃ before stmt after w' m', ss = before ++ stmt :: after ∧
      runStatements looper settings w before m = .done w' m' ∧
      runStatement looper settings w' stmt m' = .stopped s n := by
  induction ss generalizing w m with
  | nil => cases h
  | cons stmt ss ih =>
    rw [runStatements] at h
    rcases hs : runStatement looper settings w stmt m with ⟨w', m'⟩ | ⟨s', m'⟩
    · rw [Eval.bind_of_done hs] at h
      obtain ⟨before, stmt', after, w'', m'', rfl, hbefore, hstop⟩ := ih h
      refine ⟨stmt :: before, stmt', after, w'', m'', rfl, ?_, hstop⟩
      rw [runStatements, Eval.bind_of_done hs]
      exact hbefore
    · rw [Eval.bind_of_stopped hs] at h
      cases h
      exact ⟨[], stmt, ss, w, m, rfl, rfl, hs⟩

end Scriptlet
