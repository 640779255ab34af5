import Scriptlet.Run.Eval

/-!
# Steps, loops and statements in turn

A step does nothing but count when there is no quota and no interruption, and a context in which
there is neither is **free**.

What can be used about a loop is this. It unfolds: a loop is its first round and then, if there
is more to do, the loop again. And a loop with an outcome got there in finitely many rounds, which
is an induction over the rounds (`loop?_induction`).

Statements in turn are run by running the first of them and then the others from where those have
come, at whatever place one cuts them (`runStatements_append`).
-/

namespace Scriptlet

/-! ### Steps that nothing limits -/

/-- Neither a quota nor an interruption stops an evaluation in this context. -/
structure Context.Free (ctx : Context) : Prop where
  quota : ctx.limits.quota = none
  cancelAt : ctx.cancelAt = none

/-- Without a quota and an interruption a step only counts. -/
theorem Context.Free.step_eq {ctx : Context} (h : ctx.Free) (m : Meter) :
    ctx.step m = .done () { m with steps := m.steps + 1 } := by
  simp only [Context.step, h.quota, h.cancelAt, Context.withinQuota, Context.isCancelled, if_true,
    Bool.false_eq_true, if_false]

theorem Context.Free.enter {ctx : Context} (h : ctx.Free) (function : Bytes) (site : Position) :
    (ctx.enter function site).Free :=
  ⟨h.quota, h.cancelAt⟩

/-- The settings without a quota and without an interruption. -/
def Settings.unlimited (s : Settings) : Settings :=
  ⟨{ s.limits with quota := none }, none⟩

theorem Settings.depth_unlimited (s : Settings) : s.limits.depth = s.unlimited.limits.depth := rfl

theorem Settings.isolated_unlimited (s : Settings) :
    s.limits.isolated = s.unlimited.limits.isolated := rfl

theorem Context.free_of_unlimited {ctx : Context} {s : Settings}
    (hlimits : ctx.limits = s.unlimited.limits) (hcancel : ctx.cancelAt = s.unlimited.cancelAt) :
    ctx.Free :=
  ⟨by rw [hlimits]; rfl, hcancel⟩

/-! ### Unfolding a loop -/

variable {ctx : Context} {condition : Expr Position} {body : List (Clause Position)}
  {vars vars' : Bindings} {m n : Meter} {s : Stop} {o : Outcome Bindings}

theorem loop?_of_stopped (h : round ctx condition body vars m = .stopped s n) :
    loop? ctx condition body vars m = some (.stopped s n) :=
  iterate?_eq_some_iff.2 (.last (by rw [afterRound, h]))

theorem loop?_of_none (h : round ctx condition body vars m = .done none n) :
    loop? ctx condition body vars m = some (.done vars n) :=
  iterate?_eq_some_iff.2 (.last (by rw [afterRound, h]))

theorem loop?_of_some (h : round ctx condition body vars m = .done (some vars') n) :
    loop? ctx condition body vars m = loop? ctx condition body vars' n :=
  iterate?_of_inl (by rw [afterRound, h])

/-- **Induction over the rounds of a loop that has an outcome.** -/
theorem loop?_induction {Q : Bindings → Meter → Outcome Bindings → Prop}
    (stopped : ∀ {vars m s n}, round ctx condition body vars m = .stopped s n →
      Q vars m (.stopped s n))
    (last : ∀ {vars m n}, round ctx condition body vars m = .done none n → Q vars m (.done vars n))
    (again : ∀ {vars m vars' n o}, round ctx condition body vars m = .done (some vars') n →
      Q vars' n o → Q vars m o)
    (h : loop? ctx condition body vars m = some o) : Q vars m o := by
  have hlead := iterate?_eq_some_iff.1 h
  generalize hx : (vars, m) = x at hlead
  induction hlead generalizing vars m with
  | last hlast =>
    subst hx
    rw [afterRound] at hlast
    -- the loop is over after a round: it was the last one, or it stopped
    rcases hround : round ctx condition body vars m with ⟨_ | vars', n⟩ | ⟨s, n⟩
    · rw [hround] at hlast
      exact Sum.inr.inj hlast ▸ last hround
    · rw [hround] at hlast
      cases hlast
    · rw [hround] at hlast
      exact Sum.inr.inj hlast ▸ stopped hround
  | @again x y o hagain hlead ih =>
    subst hx
    rw [afterRound] at hagain
    -- the loop goes on after a round: there was one, with what it left
    rcases hround : round ctx condition body vars m with ⟨_ | vars', n⟩ | ⟨s, n⟩
    · rw [hround] at hagain
      cases hagain
    · rw [hround] at hagain
      obtain rfl := Sum.inl.inj hagain
      exact again hround (ih (iterate?_eq_some_iff.2 hlead) rfl)
    · rw [hround] at hagain
      cases hagain

theorem loop_eq_of_loop? (h : loop? ctx condition body vars m = some o) :
    loop ctx condition body vars m = o := by
  rw [loop, h, Option.getD_some]

/-- A loop that is done has an outcome. -/
theorem loop?_of_loop_eq_done (h : loop ctx condition body vars m = .done vars' n) :
    loop? ctx condition body vars m = some (.done vars' n) := by
  rw [loop] at h
  cases hl : loop? ctx condition body vars m with
  | none =>
    rw [hl] at h
    cases h
  | some o =>
    rw [hl, Option.getD_some] at h
    rw [h]

/-! ### Statements in turn -/

/-- **Statements are run in two parts**: the later ones in the world that the earlier ones have
left. -/
theorem runStatements_append (looper : Looper) (settings : Settings) (w : World)
    (ss ts : List (Stmt Position)) :
    runStatements looper settings w (ss ++ ts) =
      runStatements looper settings w ss >>= fun w => runStatements looper settings w ts := by
  induction ss generalizing w with
  | nil => rfl
  | cons s ss ih =>
    rw [List.cons_append, runStatements, runStatements, Eval.bind_assoc]
    simp only [ih]

end Scriptlet
