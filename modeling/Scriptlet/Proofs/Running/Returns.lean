import Scriptlet.Proofs.Running.Congruence
import Scriptlet.Proofs.Running.Rounds

/-!
# Nothing runs after a return

A return ends the body that it stands in, so whatever stands after it might as well not be there.
That much is plain from how a body runs (`runBody_upToReturn`). What it means for a run is less
plain, because the functions that a run knows are part of its state: the tables of two runs may
hold functions that differ, and from then on so do the runs.

They differ in nothing that can be observed. Two functions are **the same up to returns** when they
are after cutting off what stands after the first return of each, and two tables are when they give
each name the same function in this sense. Then a call leads to the same evaluation on both sides,
however deep it goes (`call_eq_of_sameToReturn`), and so does every statement.
-/

namespace Scriptlet

variable {α : Type}

/-! ### Bodies -/

/-- The clauses of a body up to its first return. -/
def upToReturn : List (Clause α) → List (Clause α)
  | [] => []
  | .assign mark name value :: body => .assign mark name value :: upToReturn body
  | .ret mark value :: _ => [.ret mark value]

/-- The clauses of a body after its first return. -/
def afterReturn : List (Clause α) → List (Clause α)
  | [] => []
  | .assign .. :: body => afterReturn body
  | .ret .. :: body => body

/-- A body is cut behind its first return. -/
theorem upToReturn_append_afterReturn (body : List (Clause α)) :
    upToReturn body ++ afterReturn body = body := by
  induction body with
  | nil => rfl
  | cons c body ih =>
    cases c with
    | assign mark name value => rw [upToReturn, afterReturn, List.cons_append, ih]
    | ret mark value => rfl

theorem afterReturn_upToReturn (body : List (Clause α)) : afterReturn (upToReturn body) = [] := by
  induction body with
  | nil => rfl
  | cons c body ih =>
    cases c with
    | assign mark name value => exact ih
    | ret mark value => rfl

theorem upToReturn_upToReturn (body : List (Clause α)) :
    upToReturn (upToReturn body) = upToReturn body := by
  have h := upToReturn_append_afterReturn (upToReturn body)
  rwa [afterReturn_upToReturn, List.append_nil] at h

/-- **What stands after a return makes no difference to a body.** -/
theorem runBody_upToReturn (caller : Caller) (ctx : Context) (body : List (Clause Position))
    (vars : Bindings) :
    runBody caller ctx (upToReturn body) vars = runBody caller ctx body vars := by
  induction body generalizing vars with
  | nil => rfl
  | cons c body ih =>
    cases c with
    | assign mark name value =>
      rw [upToReturn, runBody, runBody]
      simp only [ih]
    | ret mark value => rw [upToReturn, runBody, runBody]

/-! ### Functions -/

/-- The function without what stands after its first return. -/
def Func.toReturn (f : Func α) : Func α :=
  { f with body := upToReturn f.body }

theorem Func.toReturn_toReturn (f : Func α) : f.toReturn.toReturn = f.toReturn := by
  simp only [toReturn, upToReturn_upToReturn]

/-- Functions are the same up to their returns when they differ behind them at most. -/
theorem Func.toReturn_eq_iff {f f' : Func α} : f.toReturn = f'.toReturn ↔
    f.mark = f'.mark ∧ f.params = f'.params ∧ upToReturn f.body = upToReturn f'.body := by
  rw [toReturn, toReturn, Func.mk.injEq]

/-- **Two tables know the same functions up to returns.** -/
def SameToReturn (known known' : Table (Func α)) : Prop :=
  ∀ name, (known.get? name).map Func.toReturn = (known'.get? name).map Func.toReturn

theorem SameToReturn.refl (known : Table (Func α)) : SameToReturn known known :=
  fun _ => rfl

theorem SameToReturn.insert {known known' : Table (Func α)} (h : SameToReturn known known')
    (name : Bytes) {f f' : Func α} (hf : f.toReturn = f'.toReturn) :
    SameToReturn (known.insert name f) (known'.insert name f') := by
  intro other
  rw [Table.get?_insert, Table.get?_insert]
  split
  · rw [Option.map_some, Option.map_some, hf]
  · exact h other

/-- Two contexts that differ in what stands after returns at most. -/
structure Context.SameToReturn (ctx ctx' : Context) : Prop where
  limits : ctx.limits = ctx'.limits
  cancelAt : ctx.cancelAt = ctx'.cancelAt
  calls : ctx.calls = ctx'.calls
  functions : Scriptlet.SameToReturn ctx.functions ctx'.functions

section Contexts

variable {ctx ctx' : Context}

theorem Context.SameToReturn.alike (h : ctx.SameToReturn ctx') : ctx.Alike ctx' :=
  ⟨by rw [h.limits], h.cancelAt, by rw [h.limits], h.calls⟩

theorem Context.SameToReturn.enter (h : ctx.SameToReturn ctx') (name : Bytes) (site : Position) :
    (ctx.enter name site).SameToReturn (ctx'.enter name site) where
  limits := h.limits
  cancelAt := h.cancelAt
  calls := by rw [Context.enter, Context.enter, h.calls]
  functions := by
    rw [Context.enter, Context.enter, h.limits]
    dsimp only
    split
    · exact .refl .empty
    · exact h.functions

/-- Calls come to the same where making them does. -/
theorem calls_of_sameToReturn {caller caller' : Caller} (h : ctx.SameToReturn ctx')
    (hcaller : ∀ name site f f' vs, f.toReturn = f'.toReturn →
      caller name site f vs = caller' name site f' vs) :
    Congruence.equality.Calls caller caller' ctx ctx' := by
  intro mark name count args args' hargs
  obtain rfl : args = args' := hargs
  have hname := h.functions name
  show callNamed caller ctx mark name count args = callNamed caller' ctx' mark name count args
  rw [callNamed, callNamed]
  rcases hget : ctx.functions.get? name with _ | f
  · rw [hget, Option.map_none] at hname
    rw [Option.map_eq_none_iff.1 hname.symm]
    exact h.alike.fail_eq _ mark
  · rw [hget, Option.map_some] at hname
    obtain ⟨f', hget', hf⟩ := Option.map_eq_some_iff.1 hname.symm
    rw [hget']
    dsimp only
    obtain ⟨-, hparams, -⟩ := Func.toReturn_eq_iff.1 hf.symm
    rw [hparams, h.alike.fail_eq, funext fun vs => hcaller name mark f f' vs hf.symm]

/-- **Making a call of functions that are the same up to returns.** -/
theorem call_eq_of_sameToReturn (depth : Nat) (h : ctx.SameToReturn ctx') (name : Bytes)
    (site : Position) {f f' : Func Position} (hf : f.toReturn = f'.toReturn) (vs : List Value) :
    call depth ctx name site f vs = call depth ctx' name site f' vs := by
  induction depth generalizing ctx ctx' name site f f' vs with
  | zero =>
    rw [call, call, h.alike.fail_eq, h.limits]
  | succ depth ih =>
    have hinside := h.enter name site
    have hcalls := calls_of_sameToReturn hinside fun name site f f' vs hf =>
      ih hinside name site hf vs
    obtain ⟨hmark, hparams, hbody⟩ := Func.toReturn_eq_iff.1 hf
    have hrun : runBody (call depth (ctx.enter name site)) (ctx.enter name site) f.body =
        runBody (call depth (ctx'.enter name site)) (ctx'.enter name site) f'.body := by
      funext vars
      rw [← runBody_upToReturn, ← runBody_upToReturn _ _ f'.body, hbody]
      exact Congruence.runBody hinside.alike hcalls _ vars
    rw [call, call, hrun, hparams, hmark, h.limits, hinside.alike.fail_eq]

end Contexts

/-! ### Runs -/

/-- The statement without what stands after the first return of a function. -/
def Stmt.toReturn : Stmt α → Stmt α
  | .func name f => .func name f.toReturn
  | stmt => stmt

theorem SameToReturn.define {known known' : Table (Func α)} (h : SameToReturn known known')
    (stmt : Stmt α) : SameToReturn (stmt.define known) (stmt.toReturn.define known') := by
  cases stmt with
  | func name f => exact h.insert name f.toReturn_toReturn.symm
  | clause | cond | loop => exact h

/-- A way to run loops that knows of a loop no more than what its rounds do. -/
def Looper.ByRounds (looper : Looper) : Prop :=
  ∀ {ctx ctx' condition body}, round ctx condition body = round ctx' condition body →
    looper ctx condition body = looper ctx' condition body

theorem byRounds_loop : Looper.ByRounds loop := by
  intro ctx ctx' condition body h
  funext vars m
  have hround : afterRound ctx condition body = afterRound ctx' condition body := by
    funext ⟨vars, m⟩
    rw [afterRound, afterRound, h]
  rw [loop, loop, loop?, loop?, hround]

theorem byRounds_loopUpTo (rounds : Nat) : (loopUpTo rounds).ByRounds := by
  intro ctx ctx' condition body h
  have hcut vars : loopUpTo 0 ctx condition body vars = loopUpTo 0 ctx' condition body vars := rfl
  exact funext (Congruence.loopUpTo (S := .equality) hcut (congrFun h) rounds)

section Runs

variable {looper : Looper} (hlooper : looper.ByRounds) (settings : Settings)

include hlooper

/-- A statement without what is behind its returns does the same to the variables. -/
theorem perform_toReturn {w w' : World} (h : SameToReturn w.functions w'.functions)
    (vars : Bindings) (stmt : Stmt Position) :
    stmt.toReturn.perform looper (settings.context w') vars =
      stmt.perform looper (settings.context w) vars := by
  have hcontext : (settings.context w').SameToReturn (settings.context w) :=
    ⟨rfl, rfl, rfl, fun name => (h name).symm⟩
  have hcalls := calls_of_sameToReturn hcontext fun name site f f' vs hf =>
    call_eq_of_sameToReturn settings.limits.depth hcontext name site hf vs
  have hstmt : stmt.toReturn.perform looper (settings.context w') vars =
      stmt.perform looper (settings.context w') vars := by
    cases stmt <;> rfl
  rw [hstmt]
  refine Congruence.perform hcontext.alike hcalls (fun condition body vars => ?_) vars stmt
  have hround : round (settings.context w') condition body =
      round (settings.context w) condition body :=
    funext fun vars => Congruence.round hcontext.alike hcalls condition body vars
  exact congrFun (hlooper hround) vars

/-- **Statements do the same without what stands after returns**: they leave the same variables, or
stop for the same reason, with the same steps and the same calls. -/
theorem runStatements_toReturn {vars : Bindings} {known known' : Table (Func Position)}
    (h : SameToReturn known known') (ss : List (Stmt Position)) :
    (runStatements looper settings ⟨vars, known'⟩ (ss.map Stmt.toReturn) >>= fun w =>
        pure w.bindings) =
      runStatements looper settings ⟨vars, known⟩ ss >>= fun w => pure w.bindings := by
  induction ss generalizing vars known known' with
  | nil => rfl
  | cons stmt ss ih =>
    rw [List.map_cons, runStatements, runStatements, runStatement_eq, runStatement_eq,
      perform_toReturn hlooper settings (w := ⟨vars, known⟩) h]
    simp only [Eval.bind_assoc]
    congr 1
    funext vars
    exact ih (h.define stmt)

end Runs

end Scriptlet
