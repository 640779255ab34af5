import Mathlib.Data.ENat.Lattice
import Scriptlet.Proofs.Running.Rounds
import Scriptlet.Proofs.Running.Simulation
import Scriptlet.Run.Engine

/-!
# Interrupting a run

A quota and an interruption from outside do one thing to a run: they end it at a certain step. Up to
that step the run is the one that nothing interrupts, with the same steps, the same calls and the
same results; and if it is over before that step comes, nothing shows that it could have been
interrupted.

The proof compares the two runs. One outcome is another one **cut short** (`CutShort`) when they are
the same, or when the first stopped for a reason of its own and had by then taken no more steps
and made no other calls than the second. Cutting short is a simulation (`cutting`), since a run that
is cut short stays so whatever comes after it: evaluations only ever add to the meter.

That leaves loops that go on for good. The run that nothing interrupts has no outcome then, and what
it does has to be told by the rounds. So an interrupted run is compared with one that cuts its loops
off, after as many rounds as there are steps before the interruption; every round takes a step, so
that many are enough.
-/

namespace Scriptlet

variable {α β : Type}

/-! ### Meters -/

/-- The meter of an outcome. -/
def Outcome.meter : Outcome α → Meter
  | .done _ m => m
  | .stopped _ m => m

/-- What one meter shows, another one shows too, and perhaps more. -/
structure Meter.Before (m n : Meter) : Prop where
  steps : m.steps ≤ n.steps
  calls : m.calls <:+ n.calls

theorem Meter.Before.refl (m : Meter) : m.Before m :=
  ⟨Nat.le_refl _, List.suffix_rfl⟩

theorem Meter.Before.trans {l m n : Meter} (h : l.Before m) (h' : m.Before n) : l.Before n :=
  ⟨Nat.le_trans h.steps h'.steps, h.calls.trans h'.calls⟩

/-- An evaluation only ever adds to the meter, and its results are related to something. -/
structure Grows (R : α → α → Prop) (y : Eval α) : Prop where
  before : ∀ m : Meter, m.Before (y m).meter
  related : ∀ {m b n}, y m = .done b n → ∃ a, R a b

namespace Grows

variable {R : α → α → Prop} {Q : β → β → Prop} {y : Eval α} {g : α → Eval β}

/-- Going on after an evaluation only adds to the meter. -/
theorem before_bind (hy : Grows R y) (hg : ∀ a b, R a b → Grows Q (g b)) (m : Meter) :
    (y m).meter.Before ((y >>= g) m).meter := by
  rcases hm : y m with ⟨b, n⟩ | ⟨s, n⟩
  · obtain ⟨a, hR⟩ := hy.related hm
    rw [Eval.bind_of_done hm]
    exact (hg a b hR).before n
  · rw [Eval.bind_of_stopped hm]
    exact .refl n

protected theorem bind (hy : Grows R y) (hg : ∀ a b, R a b → Grows Q (g b)) :
    Grows Q (y >>= g) where
  before m := (hy.before m).trans (hy.before_bind hg m)
  related h := by
    obtain ⟨b, n, hb, hc⟩ := Eval.bind_eq_done_iff.1 h
    obtain ⟨a, hR⟩ := hy.related hb
    exact (hg a b hR).related hc

end Grows

theorem meter_step (ctx : Context) (m : Meter) :
    (ctx.step m).meter = { m with steps := m.steps + 1 } := by
  dsimp only [Context.step]
  split
  · split <;> rfl
  · rfl

theorem grows_step (ctx : Context) : Grows Eq ctx.step := by
  refine ⟨fun m => ?_, fun _ => ⟨(), rfl⟩⟩
  rw [meter_step]
  exact ⟨Nat.le_succ _, List.suffix_rfl⟩

/-! ### Cutting short -/

section CutShort

variable (Live : Meter → Prop) (Cut : Stop → Meter → Prop)

/-- **One outcome is another one cut short**: both are over and the same, up to related results and
with a meter that is still live, or the first stopped at a cut and the other one goes at least as
far. -/
inductive CutShort (R : α → α → Prop) : Outcome α → Outcome α → Prop where
  | done {a b n} : R a b → Live n → CutShort R (.done a n) (.done b n)
  | stopped {s n} : s ≠ .unfinished → Live n → CutShort R (.stopped s n) (.stopped s n)
  | cut {s n o} : Cut s n → n.Before o.meter → CutShort R (.stopped s n) o

omit Live Cut in
theorem Fits.calls_eq {l r : Settings} {ctx ctx' : Context} (h : Fits Eq l r ctx ctx') :
    ctx.calls = ctx'.calls := by
  refine List.forall₂_eq_eq_eq ▸ List.Forall₂.imp ?_ h.calls
  rintro ⟨function, position⟩ ⟨function', position'⟩ ⟨rfl, rfl⟩
  rfl

/-- **Cutting short is a simulation**, as soon as steps respect it. -/
def cutting {l r : Settings} (hdepth : l.limits.depth = r.limits.depth)
    (hisolated : l.limits.isolated = r.limits.isolated)
    (hnote : ∀ record {m}, Live m → Live { m with calls := record :: m.calls })
    (hstep : ∀ {ctx ctx'}, Fits Eq l r ctx ctx' → Grows Eq ctx'.step ∧
      ∀ m, Live m → CutShort Live Cut Eq (ctx.step m) (ctx'.step m)) : Simulation Eq l r where
  Rel R x y := Grows R y ∧ ∀ m, Live m → CutShort Live Cut R (x m) (y m)
  depth := hdepth
  isolated := hisolated
  pure h := by
    refine ⟨⟨fun m => .refl m, fun hb => ?_⟩, fun m hm => .done h hm⟩
    cases hb
    exact ⟨_, h⟩
  bind {_ _ R Q x y f g} hxy hfg := by
    have hg : ∀ a b, R a b → Grows Q (g b) := fun a b hR => (hfg a b hR).1
    refine ⟨hxy.1.bind hg, fun m hm => ?_⟩
    have hcut := hxy.2 m hm
    have hbefore := hxy.1.before_bind hg m
    generalize hx : x m = ox at hcut
    generalize hy : y m = oy at hcut hbefore
    cases hcut with
    | done hR hn =>
      rw [Eval.bind_of_done hx, Eval.bind_of_done hy]
      exact (hfg _ _ hR).2 _ hn
    | stopped hs hn =>
      rw [Eval.bind_of_stopped hx, Eval.bind_of_stopped hy]
      exact .stopped hs hn
    | cut hc hn =>
      rw [Eval.bind_of_stopped hx]
      exact .cut hc (hn.trans hbefore)
  noteCall record := by
    refine ⟨⟨fun m => ⟨Nat.le_refl _, List.suffix_cons _ _⟩, fun _ => ⟨(), rfl⟩⟩, fun m hm => ?_⟩
    exact .done rfl (hnote record hm)
  step := hstep
  fail fault hctx hp := by
    subst hp
    refine ⟨⟨fun m => .refl m, fun hb => by cases hb⟩, fun m hm => ?_⟩
    rw [Context.fail, Context.fail, hctx.calls_eq]
    exact .stopped (fun h => by cases h) hm

end CutShort

/-! ### When a run is interrupted -/

/-- A bound that may be missing, as a number that may be infinite. -/
def bound (o : Option Nat) : ℕ∞ := o.elim ⊤ fun n => (n : ℕ∞)

/-- A number of steps is within the quota when it is no more than that; without a quota every number
is. -/
theorem withinQuota_iff {quota : Option Nat} {n : Nat} :
    Context.withinQuota quota n = true ↔ (n : ℕ∞) < bound quota + 1 := by
  cases quota with
  | none => simp [Context.withinQuota, bound]
  | some q =>
    simp only [Context.withinQuota, bound, Option.elim_some, decide_eq_true_eq]
    rw [← Nat.lt_succ_iff]
    exact_mod_cast Iff.rfl

/-- An interruption shows at the first step at the earliest. -/
theorem isCancelled_iff {cancelAt : Option Nat} {n : Nat} (hn : 0 < n) :
    Context.isCancelled cancelAt n = true ↔ max 1 (bound cancelAt) ≤ (n : ℕ∞) := by
  cases cancelAt with
  | none => simp [Context.isCancelled, bound]
  | some c =>
    have hone : (1 : ℕ∞) ≤ n := by exact_mod_cast hn
    simp only [Context.isCancelled, bound, Option.elim_some, decide_eq_true_eq, max_le_iff, hone,
      true_and, Nat.cast_le]

namespace Settings

variable (s : Settings)

/-- **The step at which a run is interrupted**, if it comes to that step: the first one beyond the
quota, or the first one at which the interruption from outside shows. -/
noncomputable def horizon : ℕ∞ := min (bound s.limits.quota + 1) (max 1 (bound s.cancelAt))

/-- The reason for which a run stops when it is interrupted. -/
structure Interrupts (stop : Stop) : Prop where
  quota : bound s.limits.quota + 1 ≤ max 1 (bound s.cancelAt) →
    ∃ q calls, s.limits.quota = some q ∧ stop = .failed ⟨.tooManySteps q, .none, calls⟩
  cancelled : max 1 (bound s.cancelAt) < bound s.limits.quota + 1 → stop = .cancelled

variable {s} {ctx : Context} (hlimits : ctx.limits = s.limits) (hcancel : ctx.cancelAt = s.cancelAt)
  {m : Meter}

include hlimits hcancel

/-- A step before the interruption is like any other. -/
theorem step_of_lt_horizon (h : ((m.steps + 1 : ℕ) : ℕ∞) < s.horizon) :
    ctx.step m = .done () { m with steps := m.steps + 1 } := by
  obtain ⟨hquota, hcancelled⟩ := lt_min_iff.1 h
  have hwithin : Context.withinQuota ctx.limits.quota (m.steps + 1) = true := by
    rw [hlimits]
    exact withinQuota_iff.2 hquota
  have hnot : Context.isCancelled ctx.cancelAt (m.steps + 1) = false := by
    rw [hcancel, Bool.eq_false_iff, ne_eq, isCancelled_iff (Nat.succ_pos _), not_le]
    exact hcancelled
  simp only [Context.step, hwithin, hnot, if_true, Bool.false_eq_true, if_false]

/-- At the step of the interruption a run stops, for the quota if that is the first to come. -/
theorem step_of_eq_horizon (h : ((m.steps + 1 : ℕ) : ℕ∞) = s.horizon) :
    ∃ stop, ctx.step m = .stopped stop { m with steps := m.steps + 1 } ∧ s.Interrupts stop := by
  rcases le_or_gt (bound s.limits.quota + 1) (max 1 (bound s.cancelAt)) with hle | hlt
  · have hsteps : ((m.steps + 1 : ℕ) : ℕ∞) = bound s.limits.quota + 1 := h.trans (min_eq_left hle)
    have hbeyond : Context.withinQuota ctx.limits.quota (m.steps + 1) = false := by
      rw [hlimits, Bool.eq_false_iff, ne_eq, withinQuota_iff, not_lt, hsteps]
    refine ⟨.failed ⟨.tooManySteps (ctx.limits.quota.getD 0), .none, ctx.calls⟩, ?_, ?_, ?_⟩
    · simp only [Context.step, hbeyond, Bool.false_eq_true, if_false]
    · intro _
      rcases hq : s.limits.quota with _ | q
      · rw [hq] at hsteps
        simp [bound] at hsteps
      · exact ⟨q, ctx.calls, rfl, by rw [hlimits, hq, Option.getD_some]⟩
    · exact fun hlt => absurd hle (not_le.2 hlt)
  · have hsteps : ((m.steps + 1 : ℕ) : ℕ∞) = max 1 (bound s.cancelAt) :=
      h.trans (min_eq_right hlt.le)
    have hwithin : Context.withinQuota ctx.limits.quota (m.steps + 1) = true := by
      rw [hlimits, withinQuota_iff, hsteps]
      exact hlt
    have hcancelled : Context.isCancelled ctx.cancelAt (m.steps + 1) = true := by
      rw [hcancel, isCancelled_iff (Nat.succ_pos _), hsteps]
    refine ⟨.cancelled, by simp only [Context.step, hwithin, hcancelled, if_true], ?_, fun _ => rfl⟩
    exact fun hle => absurd hle (not_le.2 hlt)

end Settings

/-- **An interrupted run is the run that nothing interrupts, cut short.** The meter is live before
the step of the interruption. -/
def interruption (s : Settings) {k : Nat} (hk : s.horizon = k) : Simulation Eq s s.unlimited :=
  cutting (fun m => m.steps < k) (fun stop m => m.steps = k ∧ s.Interrupts stop)
    s.depth_unlimited s.isolated_unlimited (fun _ _ hm => hm) fun {ctx ctx'} hctx => by
      have hfree := Context.free_of_unlimited hctx.right_limits hctx.right_cancelAt
      refine ⟨grows_step ctx', fun m hm => ?_⟩
      rw [hfree.step_eq]
      rcases Nat.lt_or_eq_of_le (Nat.succ_le_of_lt hm) with hlt | heq
      · have hstep := Settings.step_of_lt_horizon hctx.left_limits hctx.left_cancelAt (m := m)
          (by rw [hk]; exact_mod_cast hlt)
        rw [hstep]
        exact .done rfl hlt
      · obtain ⟨stop, hstep, hstop⟩ := Settings.step_of_eq_horizon hctx.left_limits
          hctx.left_cancelAt (m := m) (by rw [hk, ← heq])
        rw [hstep]
        exact .cut ⟨heq, hstop⟩ (.refl _)

/-! ### Every round takes a step -/

/-- An expression that is interrupted at its first step does nothing else. -/
theorem evaluate_of_step_stopped {caller : Caller} {ctx : Context} {vars : Bindings}
    {e : Expr Position} {m n : Meter} {s : Stop} (h : ctx.step m = .stopped s n) :
    evaluate caller ctx vars e m = .stopped s n := by
  cases e <;> rw [evaluate] <;> exact Eval.bind_of_stopped h _

/-- Every round of a loop takes a step, since its condition does: with a quota that is used up, the
round would be cut short at once. -/
theorem lt_steps_round {ctx : Context} (hfree : ctx.Free)
    (condition : Expr (MarkPair (Eq : Position → Position → Prop)))
    (body : List (Clause (MarkPair (Eq : Position → Position → Prop)))) (vars : Bindings)
    (m : Meter) :
    m.steps < (round ctx (condition.map MarkPair.right) (body.map (Clause.map MarkPair.right))
      vars m).meter.steps := by
  -- the settings in which the quota is used up, and the context that fits to them
  let s : Settings := ⟨{ ctx.limits with quota := some m.steps }, none⟩
  have hk : s.horizon = (m.steps + 1 : ℕ) := by
    simp [Settings.horizon, bound, s]
  have hlimits : ctx.limits = s.unlimited.limits := by
    obtain ⟨⟨quota, depth, isolated⟩, cancelAt, functions, calls⟩ := ctx
    obtain rfl : quota = none := hfree.quota
    rfl
  have hctx : Fits Eq s s.unlimited { ctx with limits := s.limits } ctx :=
    ⟨rfl, hfree.cancelAt, hlimits, hfree.cancelAt, Table.matches_refl Func.matches_refl _,
      List.forall₂_same.2 fun _ _ => ⟨rfl, rfl⟩⟩
  have hcut := (Simulation.round (S := interruption s hk) hctx condition body vars).2 m
    (Nat.lt_succ_self _)
  obtain ⟨stop, hstep, -⟩ := Settings.step_of_eq_horizon (s := s) (m := m) hctx.left_limits
    hctx.left_cancelAt hk.symm
  -- the very first step of the round, that of the condition, is the one that stops it
  have hround : round { ctx with limits := s.limits } (condition.map MarkPair.left)
      (body.map (Clause.map MarkPair.left)) vars m =
        .stopped stop { m with steps := m.steps + 1 } :=
    Eval.bind_of_stopped (Eval.bind_of_stopped (evaluate_of_step_stopped hstep) _) _
  rw [hround] at hcut
  generalize round ctx (condition.map MarkPair.right) (body.map (Clause.map MarkPair.right))
    vars m = o at hcut ⊢
  cases hcut with
  | stopped _ hlive => exact absurd hlive (Nat.lt_irrefl _)
  | cut _ hbefore => exact hbefore.steps

/-! ### Loops that are interrupted -/

section Loops

variable {ctx : Context} {condition : Expr Position} {body : List (Clause Position)}
  (hround : ∀ vars, Grows Eq (round ctx condition body vars))

include hround

theorem grows_loopUpTo (rounds : Nat) (vars : Bindings) :
    Grows Eq (loopUpTo rounds ctx condition body vars) := by
  induction rounds generalizing vars with
  | zero => exact ⟨fun m => .refl m, fun h => by cases h⟩
  | succ rounds ih =>
    refine (hround vars).bind ?_
    rintro (_ | vars') _ rfl
    · exact ⟨fun m => .refl m, fun _ => ⟨_, rfl⟩⟩
    · exact ih vars'

theorem before_loopUpTo_succ (rounds : Nat) (vars : Bindings) (m : Meter) :
    (round ctx condition body vars m).meter.Before
      (loopUpTo (rounds + 1) ctx condition body vars m).meter := by
  rcases h : round ctx condition body vars m with ⟨_ | vars', n⟩ | ⟨s, n⟩
  · rw [loopUpTo_of_none h]
    exact .refl n
  · rw [loopUpTo_of_some h]
    exact (grows_loopUpTo hround rounds vars').before n
  · rw [loopUpTo_of_stopped h]
    exact .refl n

end Loops

/-- **A loop that is interrupted is one that goes on, cut short.** With as many rounds as there are
steps before the interruption, the loop that goes on comes far enough. -/
theorem loopers_interruption {s : Settings} {k : Nat} (hk : s.horizon = k) {rounds : Nat}
    (hrounds : k ≤ rounds) : (interruption s hk).Loopers loop (loopUpTo rounds) := by
  intro ctx ctx' hctx _ condition body vars
  have hfree := Context.free_of_unlimited hctx.right_limits hctx.right_cancelAt
  have hround := Simulation.round (S := interruption s hk) hctx condition body
  have hstrict := lt_steps_round hfree condition body
  generalize condition.map MarkPair.left = c, body.map (Clause.map MarkPair.left) = b at hround ⊢
  generalize condition.map MarkPair.right = c', body.map (Clause.map MarkPair.right) = b'
    at hround hstrict ⊢
  have hgrows : ∀ vars, Grows Eq (round ctx' c' b' vars) := fun vars => (hround vars).1
  refine ⟨grows_loopUpTo hgrows rounds vars, fun m hm => ?_⟩
  -- the induction is on the rounds that are left: with the steps already taken they never fall
  -- short of the step of the interruption, because every round takes a step
  suffices h : ∀ (rounds : Nat) (vars : Bindings) (m : Meter), m.steps < k → k ≤ m.steps + rounds →
      ∃ o, loop? ctx c b vars m = some o ∧
        CutShort (fun m => m.steps < k) (fun stop m => m.steps = k ∧ s.Interrupts stop) Eq o
          (loopUpTo rounds ctx' c' b' vars m) by
    obtain ⟨o, ho, hcut⟩ := h rounds vars m hm (by omega)
    rw [loop_eq_of_loop? ho]
    exact hcut
  intro rounds
  induction rounds with
  | zero =>
    intro vars m hm hle
    omega
  | succ rounds ih =>
    intro vars m hm hle
    have hcut := (hround vars).2 m hm
    have hmore := hstrict vars m
    have hbefore := before_loopUpTo_succ hgrows rounds vars m
    generalize hx : round ctx c b vars m = ox at hcut
    generalize hy : round ctx' c' b' vars m = oy at hcut hmore hbefore
    cases hcut with
    | @done vars? _ n heq hn =>
      subst heq
      rcases vars? with _ | vars'
      · refine ⟨_, loop?_of_none hx, ?_⟩
        rw [loopUpTo_of_none hy]
        exact .done rfl hn
      · have hsteps : m.steps < n.steps := hmore
        obtain ⟨o, ho, hcut⟩ := ih vars' n hn (by omega)
        refine ⟨o, (loop?_of_some hx).trans ho, ?_⟩
        rw [loopUpTo_of_some hy]
        exact hcut
    | stopped hs hn =>
      refine ⟨_, loop?_of_stopped hx, ?_⟩
      rw [loopUpTo_of_stopped hy]
      exact .stopped hs hn
    | cut hc hn => exact ⟨_, loop?_of_stopped hx, .cut hc (hn.trans hbefore)⟩

/-! ### How far a run comes -/

/-- Under the same settings, and with the same calls open, a step is the same step. -/
theorem Fits.step_eq {s : Settings} {ctx ctx' : Context} (h : Fits Eq s s ctx ctx') :
    ctx.step = ctx'.step := by
  funext m
  simp only [Context.step, h.left_limits, h.right_limits, h.left_cancelAt, h.right_cancelAt,
    h.calls_eq]

theorem Context.step_ne_unfinished (ctx : Context) (m n : Meter) :
    ctx.step m ≠ .stopped .unfinished n := by
  dsimp only [Context.step]
  split
  · split <;> exact nofun
  · exact nofun

/-- A run that cuts its loops off earlier is one that does so later, cut short. -/
def earlierCut (s : Settings) : Simulation Eq s s :=
  cutting (fun _ => True) (fun stop _ => stop = .unfinished) rfl rfl (fun _ _ _ => trivial)
    fun {ctx ctx'} hctx => by
      refine ⟨grows_step ctx', fun m _ => ?_⟩
      rw [hctx.step_eq]
      rcases hstep : ctx'.step m with ⟨_, n⟩ | ⟨stop, n⟩
      · exact .done rfl trivial
      · refine .stopped (fun h => ?_) trivial
        exact ctx'.step_ne_unfinished m n (h ▸ hstep)

/-- Cutting a loop off earlier gives a beginning of the same run. -/
theorem loopers_earlierCut (s : Settings) {rounds rounds' : Nat} (h : rounds ≤ rounds') :
    (earlierCut s).Loopers (loopUpTo rounds) (loopUpTo rounds') := by
  intro ctx ctx' hctx _ condition body vars
  have hround := Simulation.round (S := earlierCut s) hctx condition body
  -- what the two sides run is told by their rounds alone
  generalize condition.map MarkPair.left = c, body.map (Clause.map MarkPair.left) = b at hround ⊢
  generalize condition.map MarkPair.right = c', body.map (Clause.map MarkPair.right) = b'
    at hround ⊢
  have hgrows : ∀ vars, Grows Eq (round ctx' c' b' vars) := fun vars => (hround vars).1
  refine ⟨grows_loopUpTo hgrows rounds' vars, fun m hm => ?_⟩
  induction rounds generalizing rounds' vars m with
  | zero => exact .cut rfl ((grows_loopUpTo hgrows rounds' vars).before m)
  | succ rounds ih =>
    obtain ⟨rounds', rfl⟩ := Nat.exists_eq_add_of_le' (Nat.le_trans (Nat.succ_pos rounds) h)
    have hcut := (hround vars).2 m hm
    have hbefore := before_loopUpTo_succ hgrows rounds' vars m
    generalize hx : round ctx c b vars m = ox at hcut
    generalize hy : round ctx' c' b' vars m = oy at hcut hbefore
    cases hcut with
    | @done vars? _ n heq hn =>
      subst heq
      rcases vars? with _ | vars'
      · rw [loopUpTo_of_none hx, loopUpTo_of_none hy]
        exact .done rfl hn
      -- both go on from here, with one round less each
      · rw [loopUpTo_of_some hx, loopUpTo_of_some hy]
        exact ih (Nat.le_of_succ_le_succ h) vars' n hn
    | stopped hs hn =>
      rw [loopUpTo_of_stopped hx, loopUpTo_of_stopped hy]
      exact .stopped hs hn
    | cut hc hn =>
      rw [loopUpTo_of_stopped hx]
      exact .cut hc (hn.trans hbefore)

/-- More rounds lead further, over the same steps and calls. -/
theorem before_runStatements_loopUpTo (s : Settings) (w : World) (ss : List (Stmt Position))
    (m : Meter) {rounds rounds' : Nat} (h : rounds ≤ rounds') :
    (runStatements (loopUpTo rounds) s w ss m).meter.Before
      (runStatements (loopUpTo rounds') s w ss m).meter := by
  have hss : List.Forall₂ (Stmt.Matches Eq) ss ss := List.forall₂_same.2 fun s _ => s.matches_refl
  have hcut := (Simulation.runStatements (loopers_earlierCut s h) (World.matches_refl w) hss).2
    m trivial
  generalize runStatements (loopUpTo rounds) s w ss m = o at hcut ⊢
  generalize runStatements (loopUpTo rounds') s w ss m = o' at hcut ⊢
  cases hcut with
  | done _ _ => exact .refl _
  | stopped _ _ => exact .refl _
  | cut _ hbefore => exact hbefore

/-- **How far a run has come** when nothing interrupts it and every loop has gone through a number
of rounds, or has ended before. -/
def progress (s : Settings) (w : World) (script : Script) (rounds : Nat) : Meter :=
  (runStatements (loopUpTo rounds) s.unlimited w script.statements ⟨0, []⟩).meter

/-- The longer a run is followed, the more there is on its meter. -/
theorem progress_before (s : Settings) (w : World) (script : Script) {rounds rounds' : Nat}
    (h : rounds ≤ rounds') :
    (progress s w script rounds).Before (progress s w script rounds') :=
  before_runStatements_loopUpTo s.unlimited w script.statements ⟨0, []⟩ h

/-! ### Runs that are interrupted -/

/-- The number of steps that a run takes, which is infinite when it goes on for good. -/
def Run.stepCount (r : Run) : ℕ∞ :=
  match r.result with
  | .error .unfinished => ⊤
  | _ => r.meter.steps

theorem Run.steps_le_stepCount (r : Run) : (r.meter.steps : ℕ∞) ≤ r.stepCount := by
  unfold Run.stepCount
  split
  · exact le_top
  · exact le_rfl

/-- The run with a given outcome. -/
def Outcome.run : Outcome World → Run
  | .done w m => ⟨.ok w, m⟩
  | .stopped s m => ⟨.error s, m⟩

/-- The run of a script is the outcome of its statements. -/
theorem runScript_eq_run (s : Settings) (w : World) (script : Script) :
    runScript s w script = (runStatements loop s w script.statements ⟨0, []⟩).run := by
  rw [runScript]
  rcases runStatements loop s w script.statements ⟨0, []⟩ with ⟨v, n⟩ | ⟨stop, n⟩
  · rfl
  · rfl

theorem Outcome.meter_run (o : Outcome World) : o.run.meter = o.meter := by
  cases o <;> rfl

/-- The first step is always within the horizon. -/
theorem one_le_horizon (s : Settings) : 1 ≤ s.horizon :=
  le_min le_add_self (le_max_left _ _)

variable (s : Settings) (w : World) (script : Script) {k : Nat}

/-- **A run that is limited and one that is not go together up to the horizon**, where the first is
interrupted. -/
theorem cutShort_run (hk : s.horizon = k) {rounds : Nat} (hrounds : k ≤ rounds) :
    CutShort (fun m => m.steps < k) (fun stop m => m.steps = k ∧ s.Interrupts stop)
      (World.Matches Eq) (runStatements loop s w script.statements ⟨0, []⟩)
      (runStatements (loopUpTo rounds) s.unlimited w script.statements ⟨0, []⟩) := by
  have hpos : 0 < k := by
    have hone := one_le_horizon s
    rw [hk] at hone
    exact_mod_cast hone
  have hss : List.Forall₂ (Stmt.Matches Eq) script.statements script.statements :=
    List.forall₂_same.2 fun s _ => s.matches_refl
  exact (Simulation.runStatements (loopers_interruption hk hrounds) (World.matches_refl w) hss).2
    ⟨0, []⟩ hpos

/-- What becomes of a run that is interrupted: it stops at the step of the interruption, and until
then it is the run that nothing interrupts. -/
structure Interrupted (run : Run) : Prop where
  steps : (run.meter.steps : ℕ∞) = s.horizon
  result : ∃ stop, run.result = .error stop ∧ s.Interrupts stop
  progress : ∃ rounds, run.meter.Before (progress s w script rounds)
  free : (runScript s.unlimited w script).result ≠ .error .unfinished →
    run.meter.Before (runScript s.unlimited w script).meter

/-- **A run is either over before it is interrupted, or stops where it is.** -/
theorem run_eq_or_interrupted (hk : s.horizon = k) :
    ((runScript s.unlimited w script).stepCount < s.horizon ∧
      runScript s w script = runScript s.unlimited w script) ∨
    (s.horizon ≤ (runScript s.unlimited w script).stepCount ∧
      Interrupted s w script (runScript s w script)) := by
  have happroach := approaches_runStatements s.unlimited w script.statements
  rcases happroach.eventually_eq ⟨0, []⟩ with ⟨n, hn⟩ | ⟨enough, henough⟩
  · -- the run never ends: after as many rounds as there are steps before the interruption it is cut
    -- off, and so the interrupted run must have been cut short
    have hfree : runScript s.unlimited w script = ⟨.error .unfinished, n⟩ := by
      rw [runScript_eq_run, hn]
      rfl
    obtain ⟨n', hn'⟩ : ∃ n', runStatements (loopUpTo k) s.unlimited w script.statements ⟨0, []⟩ =
        .stopped .unfinished n' :=
      (happroach.cut_or_eq k ⟨0, []⟩).elim id fun h => ⟨n, h.trans hn⟩
    have hcut := cutShort_run s w script hk (Nat.le_refl k)
    rw [hn'] at hcut
    refine Or.inr ⟨by rw [hfree]; exact le_top, ?_⟩
    rw [runScript_eq_run s]
    generalize runStatements loop s w script.statements ⟨0, []⟩ = o at hcut ⊢
    cases hcut with
    | stopped hs => exact absurd rfl hs
    | @cut stop m _ hc hbefore =>
      refine ⟨by rw [hk, ← hc.1]; rfl, ⟨stop, rfl, hc.2⟩, ⟨k, ?_⟩, fun h => ?_⟩
      · rw [progress, hn']
        exact hbefore
      · rw [hfree] at h
        exact absurd rfl h
  · -- the run ends: with enough rounds it is not cut off, and still goes on for `k` of them
    have hrounds := henough (max enough k) (Nat.le_max_left _ _)
    have hcut := cutShort_run s w script hk (Nat.le_max_right enough k)
    have hprogress : progress s w script (max enough k) =
        (runScript s.unlimited w script).meter := by
      rw [progress, hrounds, runScript_eq_run, Outcome.meter_run]
    rw [hrounds] at hcut
    have hfree := runScript_eq_run s.unlimited w script
    generalize runStatements loop s.unlimited w script.statements ⟨0, []⟩ = o' at hcut hfree
    rw [runScript_eq_run s w script]
    generalize runStatements loop s w script.statements ⟨0, []⟩ = o at hcut ⊢
    cases hcut with
    | @done v v' n hv hn =>
      obtain rfl := World.eq_of_matches hv
      refine Or.inl ⟨?_, hfree.symm⟩
      rw [hfree, hk]
      exact Nat.cast_lt.2 hn
    | @stopped stop n hs hn =>
      refine Or.inl ⟨?_, hfree.symm⟩
      rw [hfree, hk]
      cases stop with
      | unfinished => exact absurd rfl hs
      | failed | cancelled => exact Nat.cast_lt.2 hn
    | @cut stop n o' hc hbefore =>
      have hmeter : n.Before (runScript s.unlimited w script).meter := by
        rw [hfree, Outcome.meter_run]
        exact hbefore
      have hsteps : (n.steps : ℕ∞) = s.horizon := by rw [hk, ← hc.1]
      refine Or.inr ⟨?_, hsteps, ⟨stop, rfl, hc.2⟩, ⟨max enough k, ?_⟩, fun _ => hmeter⟩
      · rw [← hsteps]
        exact (Nat.cast_le.2 hmeter.steps).trans (Run.steps_le_stepCount _)
      · rw [hprogress]
        exact hmeter

/-! ### Interruption is transparent -/

theorem bound_eq_top_iff {o : Option Nat} : bound o = ⊤ ↔ o = none := by
  cases o with
  | none => simp [bound]
  | some n => simp [bound]

/-- A run that is interrupted nowhere is the run that nothing interrupts. -/
theorem runScript_of_horizon_eq_top (h : s.horizon = ⊤) :
    runScript s w script = runScript s.unlimited w script := by
  obtain ⟨⟨quota, depth, isolated⟩, cancelAt⟩ := s
  obtain ⟨hquota, hcancel⟩ := min_eq_top.1 h
  obtain rfl : quota = none := by
    simpa [bound_eq_top_iff] using hquota
  obtain rfl : cancelAt = none := by
    simpa [max_eq_top, bound_eq_top_iff] using hcancel
  rfl

variable {s w script}

/-- A run that ends before the horizon is the same without limits. -/
theorem runScript_of_lt_horizon (h : (runScript s.unlimited w script).stepCount < s.horizon ∨
    s.horizon = ⊤) : runScript s w script = runScript s.unlimited w script := by
  by_cases htop : s.horizon = ⊤
  · exact runScript_of_horizon_eq_top s w script htop
  · obtain ⟨k, hk⟩ := ENat.ne_top_iff_exists.1 htop
    rcases run_eq_or_interrupted s w script hk.symm with ⟨-, heq⟩ | ⟨hle, -⟩
    · exact heq
    · exact absurd (h.resolve_right htop) (not_lt.2 hle)

/-- A run that would go beyond the horizon is interrupted at it. -/
theorem interrupted_of_horizon_le (h : s.horizon ≤ (runScript s.unlimited w script).stepCount)
    (htop : s.horizon ≠ ⊤) : Interrupted s w script (runScript s w script) := by
  obtain ⟨k, hk⟩ := ENat.ne_top_iff_exists.1 htop
  rcases run_eq_or_interrupted s w script hk.symm with ⟨hlt, -⟩ | ⟨-, hrun⟩
  · exact absurd hlt (not_lt.2 h)
  · exact hrun

/-- **A run that goes on for good takes infinitely many steps**: given enough rounds, it has taken
any number of them. -/
theorem exists_le_steps_progress
    (h : (runScript s.unlimited w script).result = .error .unfinished) (n : Nat) :
    ∃ rounds, n ≤ (progress s w script rounds).steps := by
  -- a quota of `n` interrupts the run, and so it takes `n + 1` steps
  let s' : Settings := ⟨{ s.limits with quota := some n }, none⟩
  have hk : s'.horizon = (n + 1 : ℕ) := by
    simp [Settings.horizon, bound, s']
  have hle : s'.horizon ≤ (runScript s'.unlimited w script).stepCount := by
    have hfree : (runScript s'.unlimited w script).stepCount = ⊤ := by
      rw [Run.stepCount, show (runScript s'.unlimited w script).result = .error .unfinished from h]
    rw [hfree]
    exact le_top
  have hrun := interrupted_of_horizon_le hle (by rw [hk]; exact ENat.natCast_ne_top _)
  obtain ⟨rounds, hrounds⟩ := hrun.progress
  have hsteps : (runScript s' w script).meter.steps = n + 1 := by
    exact_mod_cast hrun.steps.trans hk
  have hmore : (runScript s' w script).meter.steps ≤ (progress s w script rounds).steps :=
    hrounds.steps
  exact ⟨rounds, by omega⟩

/-- **A larger quota changes no result** that was not for the quota. -/
theorem result_of_bound_le {quota : Option Nat} (hq : bound s.limits.quota ≤ bound quota)
    (hresult : ∀ q calls, (runScript s w script).result ≠
      .error (.failed ⟨.tooManySteps q, .none, calls⟩)) :
    (runScript ⟨{ s.limits with quota := quota }, s.cancelAt⟩ w script).result =
      (runScript s w script).result := by
  let s' : Settings := ⟨{ s.limits with quota := quota }, s.cancelAt⟩
  have hsucc : bound s.limits.quota + 1 ≤ bound quota + 1 := by gcongr
  have hmono : s.horizon ≤ s'.horizon := min_le_min_right _ hsucc
  by_cases h : (runScript s.unlimited w script).stepCount < s.horizon ∨ s.horizon = ⊤
  · have h' : (runScript s'.unlimited w script).stepCount < s'.horizon ∨ s'.horizon = ⊤ := by
      rcases h with hlt | htop
      · exact Or.inl (lt_of_lt_of_le hlt hmono)
      · rw [htop] at hmono
        exact Or.inr (top_le_iff.1 hmono)
    rw [runScript_of_lt_horizon h, runScript_of_lt_horizon h']
    rfl
  · obtain ⟨hle, htop⟩ := not_or.1 h
    obtain ⟨stop, hstop, hreason⟩ := (interrupted_of_horizon_le (not_lt.1 hle) htop).result
    -- it was not for the quota, so it was for the interruption, and that comes first again
    have hfirst : max 1 (bound s.cancelAt) < bound s.limits.quota + 1 := by
      rw [← not_le]
      intro hquota
      obtain ⟨q, calls, -, rfl⟩ := hreason.quota hquota
      exact hresult q calls hstop
    have hfirst' : max 1 (bound s'.cancelAt) < bound s'.limits.quota + 1 := hfirst.trans_le hsucc
    have hsame : s'.horizon = s.horizon :=
      (min_eq_right hfirst'.le).trans (min_eq_right hfirst.le).symm
    have hle' : s'.horizon ≤ (runScript s'.unlimited w script).stepCount :=
      hsame ▸ not_lt.1 hle
    obtain ⟨stop', hstop', hreason'⟩ := (interrupted_of_horizon_le hle' (hsame ▸ htop)).result
    rw [hstop, hreason.cancelled hfirst, ← hreason'.cancelled hfirst']
    exact hstop'

/-- **Interruption is transparent.** Let `q` be the quota of a run, `c` the step at which an
interruption from outside shows, and `k` the lesser of `q + 1` and `c`, each of them infinite where
there is none. A run that would be over before step `k` is the same as if nothing could interrupt
it, with the same records; any other run stops at step `k`, for its quota if `q + 1` is not beyond
`c` and for the interruption otherwise, and the calls recorded until then are the first of those
that it makes when nothing interrupts it. Where nothing interrupts a run that goes on for good, it
takes any number of steps, and its calls are told by how far it comes as its loops go through more
and more rounds. So a larger quota never changes a result, except when the quota was the reason
for it. -/
theorem interruption_transparent (limits : Limits) (cancelAt : Option Nat) (w : World)
    (script : Script) :
    let run := runScript ⟨limits, cancelAt⟩ w script
    let free := runScript ⟨{ limits with quota := none }, none⟩ w script
    let freeProgress := progress ⟨limits, cancelAt⟩ w script
    let q := bound limits.quota
    let c := max 1 (bound cancelAt)
    let k := min (q + 1) c
    (free.result = .error .unfinished → ∀ n, ∃ rounds, n ≤ (freeProgress rounds).steps) ∧
    (free.stepCount < k ∨ k = ⊤ → run = free ∧ run.records script = free.records script) ∧
    (k ≤ free.stepCount → k ≠ ⊤ →
      run.meter.steps = k ∧
      (q + 1 ≤ c → ∃ q calls, limits.quota = some q ∧
        run.result = .error (.failed ⟨.tooManySteps q, .none, calls⟩)) ∧
      (c < q + 1 → run.result = .error .cancelled) ∧
      (∃ enough, ∀ rounds, enough ≤ rounds →
        run.meter.calls.reverse <+: (freeProgress rounds).calls.reverse) ∧
      (free.result ≠ .error .unfinished →
        run.meter.calls.reverse <+: free.meter.calls.reverse)) ∧
    ∀ quota, q ≤ bound quota →
      (∀ q calls, run.result ≠ .error (.failed ⟨.tooManySteps q, .none, calls⟩)) →
      (runScript ⟨{ limits with quota := quota }, cancelAt⟩ w script).result = run.result := by
  intro run free freeProgress q c k
  refine ⟨fun hnever => ?_, fun h => ?_, fun hk hfinite => ?_, fun quota hq hresult => ?_⟩
  · exact exists_le_steps_progress (s := ⟨limits, cancelAt⟩) hnever
  · have heq : run = free := runScript_of_lt_horizon (s := ⟨limits, cancelAt⟩) h
    exact ⟨heq, by rw [heq]⟩
  -- the horizon is reached, and the reason is whichever of the two comes first
  · have hrun := interrupted_of_horizon_le (s := ⟨limits, cancelAt⟩) hk hfinite
    obtain ⟨stop, hstop, hreason⟩ := hrun.result
    obtain ⟨enough, henough⟩ := hrun.progress
    refine ⟨hrun.steps, fun hquota => ?_, fun hcancel => ?_, ⟨enough, fun rounds h => ?_⟩,
      fun hover => ?_⟩
    · obtain ⟨q, calls, hq, rfl⟩ := hreason.quota hquota
      exact ⟨q, calls, hq, hstop⟩
    · rw [← hreason.cancelled hcancel]
      exact hstop
    · exact List.reverse_prefix.2 (henough.trans (progress_before _ w script h)).calls
    · exact List.reverse_prefix.2 (hrun.free hover).calls
  · exact result_of_bound_le (s := ⟨limits, cancelAt⟩) hq hresult

end Scriptlet
