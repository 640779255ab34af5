import Scriptlet.Proofs.Running.Congruence
import Scriptlet.Proofs.Running.Scopes

/-!
# Expressions are confined to their variables

An expression reads those variables that occur in it, and no others; and it writes to none. The
functions that it calls have variables, too, and do write to them, but these are in scopes of their
own, which nobody else can reach.

The first half is about two evaluations, in scopes that may have little in common. They agree on
the variables that occur in the expression, find the same functions, and start at the same step;
then they come to the same result, after the same steps, and note the same calls
(`Congruence.evaluate`). What calls were noted before plays no part in that
(`Congruence.recording`). And a call does not even look at the variables of its caller: it is
enough that its arguments have come to the same, whatever became of them on the way
(`Congruence.counting`).

The second half is about the store in which the scopes are, of which nothing changes
(`Place.Shows.evaluate`).
-/

namespace Scriptlet

variable {α : Type}

/-- **A step** goes through or not whatever calls were noted before. -/
theorem Context.step_cases (ctx : Context) (steps : Nat) :
    (∀ calls, ctx.step ⟨steps, calls⟩ = .done () ⟨steps + 1, calls⟩) ∨
      ∃ s, ∀ calls, ctx.step ⟨steps, calls⟩ = .stopped s ⟨steps + 1, calls⟩ := by
  simp only [Context.step]
  split
  · split
    · exact .inr ⟨_, fun calls => rfl⟩
    · exact .inl fun calls => rfl
  · exact .inr ⟨_, fun calls => rfl⟩

/-! ### What was noted before -/

/-- An outcome when certain calls were noted before. -/
def Outcome.over (records : List CallRecord) : Outcome α → Outcome α
  | .done a m => .done a { m with calls := m.calls ++ records }
  | .stopped s m => .stopped s { m with calls := m.calls ++ records }

/-- **Noting calls as a congruence**: what was noted before is still there, and makes no
difference. -/
def Congruence.recording : Congruence where
  Rel x y := ∀ steps calls records, x ⟨steps, calls ++ records⟩ = (y ⟨steps, calls⟩).over records
  pure a steps calls records := rfl
  bind {_ _ x y f g} hxy hfg steps calls records := by
    have hx := hxy steps calls records
    rcases hy : y ⟨steps, calls⟩ with ⟨a, n⟩ | ⟨s, n⟩
    · rw [hy] at hx
      rw [Eval.bind_of_done hx, Eval.bind_of_done hy]
      exact hfg a n.steps n.calls records
    · rw [hy] at hx
      rw [Eval.bind_of_stopped hx, Eval.bind_of_stopped hy]
      rfl
  step ctx steps calls records := by
    rcases ctx.step_cases steps with hstep | ⟨s, hstep⟩
    · rw [hstep, hstep]
      rfl
    · rw [hstep, hstep]
      rfl
  fail ctx fault position steps calls records := rfl

/-! ### What takes the same steps -/

/-- **Outcomes with the same result**, or the same reason to stop, after the same number of
steps. -/
inductive Outcome.Alike : Outcome α → Outcome α → Prop
  /-- Both ended with a result. -/
  | done {a : α} {m m' : Meter} (h : m.steps = m'.steps) : Alike (.done a m) (.done a m')
  /-- Both stopped. -/
  | stopped {s : Stop} {m m' : Meter} (h : m.steps = m'.steps) :
    Alike (.stopped s m) (.stopped s m')

/-- One evaluation after another, where the first have outcomes with the same result. -/
theorem Outcome.Alike.bind {β : Type} {x y : Eval α} {f g : α → Eval β} {m m' : Meter}
    (h : (x m).Alike (y m'))
    (hfg : ∀ a n n', n.steps = n'.steps → (f a n).Alike (g a n')) :
    ((x >>= f) m).Alike ((y >>= g) m') := by
  rcases hx : x m with ⟨a, n⟩ | ⟨s, n⟩
  · rcases hy : y m' with ⟨b, n'⟩ | ⟨s', n'⟩
    · rw [hx, hy] at h
      cases h with
      | done hn =>
        rw [Eval.bind_of_done hx, Eval.bind_of_done hy]
        exact hfg a n n' hn
    · rw [hx, hy] at h
      cases h
  · rcases hy : y m' with ⟨b, n'⟩ | ⟨s', n'⟩
    · rw [hx, hy] at h
      cases h
    · rw [hx, hy] at h
      cases h with
      | stopped hn =>
        rw [Eval.bind_of_stopped hx, Eval.bind_of_stopped hy]
        exact .stopped hn

/-- **Counting steps as a congruence**: nothing but the number of steps makes a difference. -/
def Congruence.counting : Congruence where
  Rel x y := ∀ m m' : Meter, m.steps = m'.steps → (x m).Alike (y m')
  pure a m m' hm := .done hm
  bind hxy hfg m m' hm := (hxy m m' hm).bind hfg
  step ctx m m' hm := by
    obtain ⟨steps, calls⟩ := m
    obtain ⟨_, calls'⟩ := m'
    obtain rfl := hm
    rcases ctx.step_cases steps with hstep | ⟨s, hstep⟩
    · rw [hstep, hstep]
      exact .done rfl
    · rw [hstep, hstep]
      exact .stopped rfl
  fail ctx fault position m m' hm := .stopped hm

/-! ### Two evaluations -/

section Evaluations

variable {ctx : Context} {shared : Table (Func Position)} {vars vars' : Bindings}

/-- **An expression has the same outcome in scopes that agree on its variables.** -/
theorem evaluate_eq_of_agreeOn {e : Expr Position} (h : AgreeOn e.variables vars vars') :
    evaluate (ctx.sharing shared) ctx vars e = evaluate (ctx.sharing shared) ctx vars' e := by
  have hcalls : Congruence.equality.Calls (ctx.sharing shared) (ctx.sharing shared) ctx ctx :=
    Congruence.calls_of_functions_eq _ (.refl ctx) rfl fun _ _ _ _ => rfl
  exact Congruence.evaluate (.refl ctx) hcalls e h

/-- The calls that were noted before are left out of account. -/
theorem evaluate_over (e : Expr Position) (steps : Nat) (records : List CallRecord) :
    evaluate (ctx.sharing shared) ctx vars e ⟨steps, records⟩ =
      (evaluate (ctx.sharing shared) ctx vars e ⟨steps, []⟩).over records := by
  have hcalls : Congruence.recording.Calls (ctx.sharing shared) (ctx.sharing shared) ctx ctx :=
    Congruence.calls_of_functions_eq _ (.refl ctx) rfl
      (Congruence.call (fun _ _ _ _ => rfl) _ _)
  exact Congruence.evaluate (.refl ctx) hcalls e (.refl _ vars) steps [] records

/-- **A call depends on what its arguments come to**, and on nothing else of its caller's scope. -/
theorem evaluate_call_alike {args args' : List (Expr Position)}
    (hlength : args.length = args'.length) {steps : Nat} {calls calls' : List CallRecord}
    (h : (evaluateList (ctx.sharing shared) ctx vars args ⟨steps + 1, calls⟩).Alike
      (evaluateList (ctx.sharing shared) ctx vars' args' ⟨steps + 1, calls'⟩))
    (mark : Position) (name : Bytes) :
    (evaluate (ctx.sharing shared) ctx vars (.call mark name args) ⟨steps, calls⟩).Alike
      (evaluate (ctx.sharing shared) ctx vars' (.call mark name args') ⟨steps, calls'⟩) := by
  -- a call begins in an empty scope, so steps are all that it can tell apart
  have hcaller : ∀ f vs n n', n.steps = n'.steps →
      (ctx.sharing shared name mark f vs n).Alike (ctx.sharing shared name mark f vs n') :=
    fun f vs => Congruence.call (S := .counting) (fun _ _ _ hm => .done hm) _ _ name mark f vs
  rw [evaluate_call, evaluate_call, hlength]
  rcases ctx.step_cases steps with hstep | ⟨s, hstep⟩
  · rw [Eval.bind_of_done (hstep calls), Eval.bind_of_done (hstep calls'), callNamed, callNamed]
    rcases ctx.functions.get? name with _ | f
    · exact .stopped rfl
    · dsimp only
      split
      · exact h.bind (hcaller f)
      · exact .stopped rfl
  · rw [Eval.bind_of_stopped (hstep calls), Eval.bind_of_stopped (hstep calls')]
    exact .stopped rfl

end Evaluations

/-- **Expressions see their own variables only, and never write.** Take two places, in one store or
in two, where the same functions are found, on the top level as well, with the same calls open and
under the same limits, and an expression on the variables of which their scopes agree. Evaluating
it at the same step has the same outcome at both, calls noted before aside; and this is the outcome
without a store, to which the variables that do not occur make no difference. Either store still has
every scope and every table of functions that it had, as it was.

What comes of a call is a matter of what comes of its arguments, even where the scopes agree on no
variable at all. -/
theorem expressions_confined {p p' : Place} {σ σ' : Store} {ctx : Context}
    {vars vars' : Bindings} {shared : Table (Func Position)} (h : p.Shows σ ctx vars shared)
    (h' : p'.Shows σ' ctx vars' shared) :
    (∀ (e : Expr Position) (steps : Nat), AgreeOn e.variables vars vars' →
      let o := evaluate (ctx.sharing shared) ctx vars e ⟨steps, []⟩
      evaluate (ctx.sharing shared) ctx vars' e ⟨steps, []⟩ = o ∧
      (∀ calls, ∃ τ, σ.Extends τ ∧ p.evaluate e σ ⟨steps, calls⟩ = (o.over calls, τ)) ∧
      ∀ calls, ∃ τ, σ'.Extends τ ∧ p'.evaluate e σ' ⟨steps, calls⟩ = (o.over calls, τ)) ∧
    ∀ (mark : Position) (name : Bytes) (args args' : List (Expr Position)) (steps : Nat)
      (calls calls' : List CallRecord), args.length = args'.length →
      (p.evaluateList args σ ⟨steps + 1, calls⟩).1.Alike
        (p'.evaluateList args' σ' ⟨steps + 1, calls'⟩).1 →
      (p.evaluate (.call mark name args) σ ⟨steps, calls⟩).1.Alike
        (p'.evaluate (.call mark name args') σ' ⟨steps, calls'⟩).1 := by
  constructor
  · intro e steps hvars o
    have hsame : evaluate (ctx.sharing shared) ctx vars' e ⟨steps, []⟩ = o :=
      congrFun (evaluate_eq_of_agreeOn hvars).symm _
    refine ⟨hsame, fun calls => ?_, fun calls => ?_⟩
    · obtain ⟨τ, hτ, heval⟩ := h.evaluate e ⟨steps, calls⟩
      exact ⟨τ, hτ, by rw [heval, evaluate_over]⟩
    · obtain ⟨τ, hτ, heval⟩ := h'.evaluate e ⟨steps, calls⟩
      exact ⟨τ, hτ, by rw [heval, evaluate_over, hsame]⟩
  -- a call sees its arguments and nothing else of the scope
  · intro mark name args args' steps calls calls' hlength hargs
    obtain ⟨_, -, hlist⟩ := h.evaluateList args ⟨steps + 1, calls⟩
    obtain ⟨_, -, hlist'⟩ := h'.evaluateList args' ⟨steps + 1, calls'⟩
    obtain ⟨_, -, hcall⟩ := h.evaluate (.call mark name args) ⟨steps, calls⟩
    obtain ⟨_, -, hcall'⟩ := h'.evaluate (.call mark name args') ⟨steps, calls'⟩
    rw [hlist, hlist'] at hargs
    rw [hcall, hcall']
    exact evaluate_call_alike hlength hargs mark name

/-- A store with two scopes and the functions of both: `f` gives back its argument, after it has
bound the name `a` to it. -/
def twoScopes : Store :=
  ⟨[Table.empty.insert [97] (.bool true) |>.insert [98] (.bool true),
      Table.empty.insert [97] (.bool false) |>.insert [98] (.bool true)],
    [Table.empty.insert [102] ⟨.none, [[120]],
      [.assign .none [97] (.var .none [120]), .ret .none (.var .none [97])]⟩]⟩

/-- The call `f(b)` in these two scopes, which do not agree on `a`, and keep it. -/
theorem expressions_confined_twoScopes :
    let settings : Settings := ⟨.ofRequest 0 3 false, none⟩
    let p : Place := ⟨settings, [], ⟨0, 0⟩, ⟨0, 0⟩⟩
    let p' : Place := ⟨settings, [], ⟨1, 0⟩, ⟨0, 0⟩⟩
    let e : Expr Position := .call .none [102] [.var .none [98]]
    let o : Outcome Value := .done (.bool true) ⟨6, [⟨[102], 1⟩]⟩
    (∃ τ, twoScopes.Extends τ ∧ p.evaluate e twoScopes ⟨0, []⟩ = (o, τ)) ∧
      ∃ τ, twoScopes.Extends τ ∧ p'.evaluate e twoScopes ⟨0, []⟩ = (o, τ) := by
  intro settings p p' e o
  let ctx : Context := ⟨settings.limits, none, twoScopes.functions ⟨0, 0⟩, []⟩
  have h : p.Shows twoScopes ctx _ _ := ⟨rfl, rfl, rfl, rfl, rfl, rfl⟩
  have h' : p'.Shows twoScopes ctx _ _ := ⟨rfl, rfl, rfl, rfl, rfl, rfl⟩
  have hvars : AgreeOn e.variables (twoScopes.bindings p.scope) (twoScopes.bindings p'.scope) :=
    fun name hname => by
      obtain rfl := List.mem_singleton.1 hname
      rfl
  obtain ⟨-, hleft, hright⟩ := (expressions_confined h h').1 e 0 hvars
  exact ⟨hleft [], hright []⟩

end Scriptlet
