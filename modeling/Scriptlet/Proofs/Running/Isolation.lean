import Scriptlet.Proofs.Running.Congruence
import Scriptlet.Proofs.Running.Depth

/-!
# Isolated calls

When calls are isolated, the body of a function knows no functions. That is a restriction and
nothing else: a script that gets along with it does the same without it. For the only thing that
isolation changes is what the calls in a body find; an isolated run that comes to such a call stops
there, since the function is not there, and says so with a call open. Until then the two runs are
the same run.

So an isolated run is the run with shared functions, or it has stopped for its isolation
(`restriction`); and no call is ever made inside another one.
-/

namespace Scriptlet

variable {α : Type}

/-- **Stopping for isolation**: a function is not there for a call in a body. -/
def Stop.IsForIsolation (s : Stop) : Prop :=
  ∃ name position calls, calls ≠ [] ∧ s = .failed ⟨.undefinedFunction name, position, calls⟩

/-- **One outcome is the other one restricted**: no call was made inside another one, and the two
are the same, or the first stopped for isolation. -/
structure Restricted (o o' : Outcome α) : Prop where
  deepest_le : o.meter.deepest ≤ 1
  eq_or_stopped : o = o' ∨ ∃ s n, s.IsForIsolation ∧ o = .stopped s n

/-- **Isolation as a congruence**: when no call was made inside another one so far, the outcome is
the other one restricted. -/
def restriction : Congruence where
  Rel x y := ∀ m : Meter, m.deepest ≤ 1 → Restricted (x m) (y m)
  pure a m hm := ⟨hm, .inl rfl⟩
  bind {_ _ x y f g} hxy hfg m hm := by
    obtain ⟨hdeepest, heq | ⟨s, n, hs, hstop⟩⟩ := hxy m hm
    · rcases hx : x m with ⟨a, n⟩ | ⟨s, n⟩
      · rw [hx] at hdeepest
        rw [Eval.bind_of_done hx, Eval.bind_of_done (heq.symm.trans hx)]
        exact hfg a n hdeepest
      · rw [hx] at hdeepest
        rw [Eval.bind_of_stopped hx, Eval.bind_of_stopped (heq.symm.trans hx)]
        exact ⟨hdeepest, .inl rfl⟩
    · rw [hstop] at hdeepest
      rw [Eval.bind_of_stopped hstop]
      exact ⟨hdeepest, .inr ⟨s, n, hs, rfl⟩⟩
  step ctx m hm := ⟨by rw [meter_step]; exact hm, .inl rfl⟩
  fail ctx fault position m hm := ⟨hm, .inl rfl⟩

/-- Inside a body that knows no functions every call stops for isolation, whatever the other side
does. -/
theorem calls_restriction_of_isolated (caller caller' : Caller) {ctx : Context} (ctx' : Context)
    (hfunctions : ctx.functions = .empty) (hcalls : ctx.calls ≠ []) :
    restriction.Calls caller caller' ctx ctx' := by
  intro mark name count args args' _ m hm
  have hfail : callNamed caller ctx mark name count args m =
      .stopped (.failed ⟨.undefinedFunction name, mark, ctx.calls⟩) m := by
    rw [callNamed, hfunctions, Table.get?_empty]
    rfl
  rw [hfail]
  exact ⟨hm, .inr ⟨_, m, ⟨name, mark, ctx.calls, hcalls, rfl⟩, rfl⟩⟩

/-- **Making a call from the top level**: the body knows no functions on one side, and so it makes
no further call there. -/
theorem restriction_call {ctx ctx' : Context} (halike : ctx.Alike ctx')
    (hisolated : ctx.limits.isolated = true) (name : Bytes) (site : Position) (f : Func Position)
    (vs : List Value) :
    restriction.Rel (ctx.caller name site f vs) (ctx'.caller name site f vs) := by
  rw [Context.caller, Context.caller, ← halike.depth]
  rcases hdepth : ctx.limits.depth with _ | depth
  · rw [call, call, ← halike.depth]
    exact restriction.fail_alike halike _ site
  · have hinside := halike.enter name site
    have hknown : (ctx.enter name site).functions = .empty := if_pos hisolated
    have hcalls := fun caller caller' => calls_restriction_of_isolated caller caller'
      (ctx'.enter name site) hknown (List.cons_ne_nil _ _)
    rw [call, call, ← halike.depth, hdepth, Nat.add_sub_cancel_left]
    refine restriction.bind (fun m hm => ⟨?_, .inl rfl⟩) fun _ => ?_
    · exact Nat.max_le.2 ⟨Nat.le_refl 1, hm⟩
    · refine restriction.bind (Congruence.runBody hinside (hcalls _ _) f.body _) fun p => ?_
      rcases p with ⟨vars, _ | v⟩
      · exact restriction.fail_alike hinside _ f.mark
      · exact restriction.pure v

/-! ### Runs -/

/-- The settings with isolated calls, or with shared functions. -/
def Settings.withIsolation (s : Settings) (isolated : Bool) : Settings :=
  ⟨{ s.limits with isolated := isolated }, s.cancelAt⟩

section Runs

variable (s : Settings) (w : World)

theorem Settings.alike_context_withIsolation :
    ((s.withIsolation true).context w).Alike ((s.withIsolation false).context w) :=
  ⟨rfl, rfl, rfl, rfl⟩

/-- On the top level both sides find the same functions. -/
theorem restriction_calls :
    restriction.Calls ((s.withIsolation true).context w).caller
      ((s.withIsolation false).context w).caller
      ((s.withIsolation true).context w) ((s.withIsolation false).context w) := by
  have halike := s.alike_context_withIsolation w
  exact restriction.calls_of_functions_eq halike rfl (restriction_call halike rfl)

theorem restriction_loopUpTo (rounds : Nat) (condition : Expr Position)
    (body : List (Clause Position)) (vars : Bindings) :
    restriction.Rel (loopUpTo rounds ((s.withIsolation true).context w) condition body vars)
      (loopUpTo rounds ((s.withIsolation false).context w) condition body vars) :=
  Congruence.loopUpTo (fun _ _ hm => ⟨hm, .inl rfl⟩)
    (Congruence.round (s.alike_context_withIsolation w) (restriction_calls s w) condition body)
    rounds vars

/-- **Statements with isolated calls are the statements with shared functions, restricted.** -/
theorem restriction_runStatements (rounds : Nat) (ss : List (Stmt Position)) :
    restriction.Rel (runStatements (loopUpTo rounds) (s.withIsolation true) w ss)
      (runStatements (loopUpTo rounds) (s.withIsolation false) w ss) := by
  induction ss generalizing w with
  | nil => exact restriction.pure w
  | cons stmt ss ih =>
    rw [runStatements, runStatements, runStatement_eq, runStatement_eq]
    have hperform := Congruence.perform (s.alike_context_withIsolation w) (restriction_calls s w)
      (restriction_loopUpTo s w rounds) w.bindings stmt
    exact restriction.bind (restriction.bind hperform fun vars => restriction.pure _) ih

variable (script : Script)

theorem deepest_isolated_le (rounds : Nat) :
    (runUpTo (s.withIsolation true) w script rounds).meter.deepest ≤ 1 := by
  rw [runUpTo, Outcome.meter_run]
  exact (restriction_runStatements s w rounds script.statements ⟨0, []⟩ (Nat.zero_le 1)).deepest_le

variable {s w script}

/-- A run that does not stop for isolation is round by round the run with shared functions. -/
theorem runUpTo_shared_eq
    (h : ∀ stop, (runScript (s.withIsolation true) w script).result = .error stop →
      ¬stop.IsForIsolation) (rounds : Nat) :
    runUpTo (s.withIsolation false) w script rounds =
      runUpTo (s.withIsolation true) w script rounds := by
  obtain ⟨-, heq | ⟨stop, n, hisolation, hstop⟩⟩ :=
    restriction_runStatements s w rounds script.statements ⟨0, []⟩ (Nat.zero_le 1)
  · rw [runUpTo, runUpTo, heq]
  -- What stops for isolation has come to its end, and the run with all its rounds is the same.
  · have hresult : (runUpTo (s.withIsolation true) w script rounds).result = .error stop := by
      rw [runUpTo, hstop]
      rfl
    have hcut : (runUpTo (s.withIsolation true) w script rounds).result ≠ .error .unfinished := by
      obtain ⟨_, _, _, _, rfl⟩ := hisolation
      rw [hresult]
      exact fun h => by cases h
    rw [← runScript_eq_runUpTo hcut] at hresult
    exact absurd hisolation (h stop hresult)

end Runs

/-- **Isolated calls are a restriction of shared ones.** Unless a run with isolated calls stops
because a function is not there for a call in a body, the run with shared functions is the same: it
has the same result, and if it comes to an end the same steps and the same records; and if it goes
on for good, it does so in the same way, round by round. And no isolated run ever goes deeper than
one call. -/
theorem isolation_restricts (limits : Limits) (cancelAt : Option Nat) (w : World)
    (script : Script) :
    let isolated : Settings := ⟨{ limits with isolated := true }, cancelAt⟩
    let shared : Settings := ⟨{ limits with isolated := false }, cancelAt⟩
    let run := runScript isolated w script
    let run' := runScript shared w script
    ((∀ failure, run.result = .error (.failed failure) →
        (∃ name, failure.fault = .undefinedFunction name) → failure.calls = []) →
      run'.result = run.result ∧
      (run.result ≠ .error .unfinished →
        run' = run ∧ run'.records script = run.records script) ∧
      ∀ rounds, runUpTo shared w script rounds = runUpTo isolated w script rounds) ∧
    (∀ rounds, (runUpTo isolated w script rounds).meter.deepest ≤ 1) ∧
    (run.result ≠ .error .unfinished → run.meter.deepest ≤ 1) := by
  intro isolated shared run run'
  let s : Settings := ⟨limits, cancelAt⟩
  have hdeepest := deepest_isolated_le s w script
  refine ⟨fun hrun => ?_, hdeepest, fun hend => ?_⟩
  -- no round of the isolated run misses a function within a call, so each is the same round
  · have hsame : ∀ rounds, runUpTo shared w script rounds = runUpTo isolated w script rounds := by
      refine runUpTo_shared_eq (s := s) fun stop hstop => ?_
      rintro ⟨name, position, calls, hcalls, rfl⟩
      exact hcalls (hrun _ hstop ⟨name, rfl⟩)
    obtain ⟨hresult, hfinished⟩ := runScript_congr hsame
    refine ⟨hresult, fun hend => ?_, hsame⟩
    have heq : run' = run := hfinished hend
    exact ⟨heq, by rw [heq]⟩
  · obtain ⟨enough, henough⟩ := exists_runUpTo_eq hend
    have hlast := hdeepest enough
    rwa [show runUpTo (s.withIsolation true) w script enough = run from
      henough enough (Nat.le_refl _)] at hlast

/-- A script that calls `f` for the argument of another call of `f`. -/
def calledTwice : Script :=
  ⟨[], [.func [102] ⟨.none, [[120]], [.ret .none (.var .none [120])]⟩,
    .clause (.assign .none [97]
      (.call .none [102] [.call .none [102] [.bool .none true]]))]⟩

/-- Neither call is made from a body, and so the script runs as well when calls are isolated. -/
theorem isolation_restricts_calledTwice :
    let isolated : Settings := ⟨.ofRequest 0 3 true, none⟩
    let shared : Settings := ⟨.ofRequest 0 3 false, none⟩
    let run := runScript isolated .empty calledTwice
    run.meter.calls = [⟨[102], 1⟩, ⟨[102], 1⟩] ∧
    (∀ failure, run.result = .error (.failed failure) →
      (∃ name, failure.fault = .undefinedFunction name) → failure.calls = []) ∧
    runScript shared .empty calledTwice = run ∧ run.meter.deepest ≤ 1 := by
  intro isolated shared run
  have hrun : ∀ failure, run.result = .error (.failed failure) →
      (∃ name, failure.fault = .undefinedFunction name) → failure.calls = [] :=
    fun failure h => by cases h
  obtain ⟨hsame, -, hdeepest⟩ := isolation_restricts (.ofRequest 0 3 true) none .empty calledTwice
  have hend : run.result ≠ .error .unfinished := fun h => by cases h
  exact ⟨rfl, hrun, ((hsame hrun).2.1 hend).1, hdeepest hend⟩

end Scriptlet
