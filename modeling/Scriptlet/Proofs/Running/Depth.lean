import Scriptlet.Proofs.Running.Interruption

/-!
# The limit on the depth of calls

How many calls may be open at once is one of the limits of a run, and the run of a script that never
comes to it does not depend on it. To see this, two runs with different limits are compared in
lockstep. They do the same for as long as both may open the calls that the script asks for; and when
the lower limit is reached, the run under it has failed, and the other one opens the call and goes
on (`Capped`).

So there are two ways to know what a run does under a lower limit. If it reaches beyond the limit
it fails there; and whether it does is told by the depths that are recorded for its calls. The
records of a run that goes on for good are told by how far it has come when its loops have gone
through more and more rounds (`runUpTo`), and the depth that it reaches is the greatest of all
depths recorded on the way (`depthReached`).
-/

namespace Scriptlet

variable {α β : Type}

/-! ### The depth that a meter shows -/

/-- **The greatest depth of a call** that was recorded so far. -/
def Meter.deepest (m : Meter) : Nat :=
  (m.calls.map CallRecord.depth).foldr max 0

theorem Meter.deepest_cons (steps : Nat) (record : CallRecord) (calls : List CallRecord) :
    Meter.deepest ⟨steps, record :: calls⟩ = max record.depth (Meter.deepest ⟨steps, calls⟩) := rfl

theorem Meter.deepest_append (steps : Nat) (l l' : List CallRecord) :
    Meter.deepest ⟨steps, l ++ l'⟩ =
      max (Meter.deepest ⟨steps, l⟩) (Meter.deepest ⟨steps, l'⟩) := by
  induction l with
  | nil => exact (Nat.zero_max _).symm
  | cons record l ih => rw [List.cons_append, deepest_cons, deepest_cons, ih, Nat.max_assoc]

/-- More records reach no less deep. -/
theorem Meter.Before.deepest_le {m n : Meter} (h : m.Before n) : m.deepest ≤ n.deepest := by
  obtain ⟨new, hnew⟩ := h.calls
  have hmax : n.deepest =
      max (Meter.deepest ⟨n.steps, new⟩) (Meter.deepest ⟨n.steps, m.calls⟩) := by
    rw [← Meter.deepest_append, hnew]
  rw [hmax]
  exact Nat.le_max_right _ _

/-! ### The same run under two limits -/

/-- The settings with another limit on the depth of calls. -/
def Settings.withDepth (s : Settings) (depth : Nat) : Settings :=
  ⟨{ s.limits with depth := depth }, s.cancelAt⟩

/-- **An outcome under a limit against the one under a higher limit**: they are the same, up to
related results, and the limit was kept; or the first run failed at the limit, with as many open
calls as it allows, and the second one went deeper. -/
inductive Capped (limit : Nat) (R : α → α → Prop) : Outcome α → Outcome α → Prop where
  | done {a b n} : R a b → n.deepest ≤ limit → Capped limit R (.done a n) (.done b n)
  | stopped {s n} : n.deepest ≤ limit → Capped limit R (.stopped s n) (.stopped s n)
  | tooDeep {site frames n o} : n.deepest ≤ limit → frames.length = limit →
      limit < o.meter.deepest →
      Capped limit R (.stopped (.failed ⟨.tooDeep limit, site, frames⟩) n) o

section Capping

variable {s : Settings} {lower higher : Nat} {ctx ctx' : Context}

/-- **A run goes in step with itself under a higher limit**, until it reaches its own. -/
def capping (s : Settings) (lower higher : Nat) :
    Lockstep Eq (s.withDepth lower) (s.withDepth higher) where
  Rel R x y := Grows R y ∧
    ∀ m, m.deepest ≤ lower → Capped lower R (x m) (y m)
  isolated := rfl
  pure h := by
    refine ⟨⟨fun m => .refl m, fun hb => ?_⟩, fun m hm => .done h hm⟩
    cases hb
    exact ⟨_, h⟩
  bind {_ _ R Q x y f g} hxy hfg := by
    have hg : ∀ a b, R a b → Grows Q (g b) := fun a b hR => (hfg a b hR).1
    refine ⟨hxy.1.bind hg, fun m hm => ?_⟩
    have hcapped := hxy.2 m hm
    have hbefore := hxy.1.before_bind hg m
    generalize hx : x m = ox at hcapped
    generalize hy : y m = oy at hcapped hbefore
    cases hcapped with
    | done hR hn =>
      rw [Eval.bind_of_done hx, Eval.bind_of_done hy]
      exact (hfg _ _ hR).2 _ hn
    | stopped hn =>
      rw [Eval.bind_of_stopped hx, Eval.bind_of_stopped hy]
      exact .stopped hn
    | tooDeep hn hlength hdeeper =>
      -- the run under the lower limit is over, and the other one only gets deeper
      rw [Eval.bind_of_stopped hx]
      exact .tooDeep hn hlength (hdeeper.trans_le hbefore.deepest_le)
  step {ctx ctx'} hctx := by
    have hstep : ctx.step = ctx'.step := by
      funext m
      simp only [Context.step, hctx.left_limits, hctx.right_limits, hctx.left_cancelAt,
        hctx.right_cancelAt, hctx.calls_eq, Settings.withDepth]
    refine ⟨grows_step ctx', fun m hm => ?_⟩
    have hmeter : (ctx'.step m).meter.deepest ≤ lower := by
      rw [meter_step]
      exact hm
    rw [hstep]
    rcases hout : ctx'.step m with ⟨_, n⟩ | ⟨stop, n⟩
    · rw [hout] at hmeter
      exact .done rfl hmeter
    · rw [hout] at hmeter
      exact .stopped hmeter
  fail fault hctx hp := by
    subst hp
    refine ⟨⟨fun m => .refl m, fun hb => by cases hb⟩, fun m hm => ?_⟩
    rw [Context.fail, Context.fail, hctx.calls_eq]
    exact .stopped hm

/-- A call that the lower limit allows may be noted. -/
theorem capping_noteCall {record : CallRecord} (h : record.depth ≤ lower) :
    (capping s lower higher).Rel Eq (noteCall record) (noteCall record) := by
  refine ⟨⟨fun m => ⟨Nat.le_refl _, List.suffix_cons _ _⟩, fun _ => ⟨(), rfl⟩⟩, fun m hm => ?_⟩
  refine .done rfl ?_
  rw [Meter.deepest_cons]
  exact Nat.max_le.2 ⟨h, hm⟩

theorem Fits.right_refl {l r : Settings} (h : Fits Eq l r ctx ctx') : Fits Eq r r ctx' ctx' :=
  ⟨h.right_limits, h.right_cancelAt, h.right_limits, h.right_cancelAt,
    Table.matches_refl Func.matches_refl _, List.forall₂_same.2 fun _ _ => ⟨rfl, rfl⟩⟩

/-- A call notes how deep it is, and whatever its body does comes on top of that. -/
theorem deepest_call {r : Settings} (hctx : Fits Eq r r ctx ctx) (depth : Nat) (name : Bytes)
    (site : MarkPair (Eq : Position → Position → Prop))
    (f : Func (MarkPair (Eq : Position → Position → Prop))) (vs : List Value) (m : Meter) :
    ctx.limits.depth - depth ≤
      (call (depth + 1) ctx name site.right (f.map MarkPair.right) vs m).meter.deepest := by
  have hinside := (earlierCut r).fits_enter hctx name site
  have hbody := Lockstep.runBody hinside ((earlierCut r).call depth hinside) f.body
    (Table.empty.insertAll (f.params.zip vs))
  have hnoted : ctx.limits.depth - depth ≤
      Meter.deepest { m with calls := ⟨name, ctx.limits.depth - depth⟩ :: m.calls } := by
    rw [Meter.deepest_cons]
    exact Nat.le_max_left _ _
  rw [call]
  refine hnoted.trans (Grows.before (R := Eq) (hbody.1.bind fun _ p _ => ?_) _).deepest_le
  rcases p with ⟨vars, _ | v⟩
  · exact ⟨fun m => .refl m, fun h => by cases h⟩
  · exact ⟨fun m => .refl m, fun _ => ⟨_, rfl⟩⟩

/-- **Making a call goes in step with making it under a higher limit**, by induction on the depth
that is left: together with the calls that are open it makes up the limit. -/
theorem capping_call {extra depth : Nat}
    (hctx : Fits Eq (s.withDepth lower) (s.withDepth (lower + extra + 1)) ctx ctx')
    (hdepth : depth + ctx.calls.length = lower) :
    (capping s lower (lower + extra + 1)).Callers (call depth ctx)
      (call (depth + extra + 1) ctx') := by
  have hlower : ctx.limits.depth = lower := by
    rw [hctx.left_limits, Settings.withDepth]
  have hhigher : ctx'.limits.depth = lower + extra + 1 := by
    rw [hctx.right_limits, Settings.withDepth]
  induction depth generalizing ctx ctx' with
  | zero =>
    -- no further call under the lower limit, but one under the higher limit, and it is noted
    intro name site f vs
    have hself := hctx.right_refl
    refine ⟨((earlierCut _).call (0 + extra + 1) hself name site f vs).1, fun m hm => ?_⟩
    have hdeepest := deepest_call hself (0 + extra) name site f vs m
    rw [call, hlower]
    refine .tooDeep hm (by omega) ?_
    omega
  | succ depth ih =>
    intro name site f vs
    have hinside := (capping s lower (lower + extra + 1)).fits_enter hctx name site
    have hrecord : lower + extra + 1 - (depth + extra + 1) = lower - depth := by omega
    rw [show depth + 1 + extra + 1 = (depth + extra + 1) + 1 by omega, call, call, hlower, hhigher,
      hrecord]
    refine (capping s lower _).bind_eq (capping_noteCall (Nat.sub_le _ _)) fun _ => ?_
    have hcallers := ih hinside (by rw [Context.enter, List.length_cons]; omega) hlower hhigher
    refine (capping s lower _).bind_eq (Lockstep.runBody hinside hcallers f.body _) fun p => ?_
    rcases p with ⟨vars, _ | v⟩
    · exact (capping s lower _).fail _ hinside f.mark.2
    · exact (capping s lower _).pure rfl

theorem capping_calling (h : lower < higher) : (capping s lower higher).Calling := by
  obtain ⟨extra, rfl⟩ := Nat.exists_eq_add_of_lt h
  intro ctx ctx' hctx hcalls
  have hdepth : lower + ctx.calls.length = lower := by rw [hcalls, List.length_nil, Nat.add_zero]
  have hcallers := capping_call hctx hdepth
  rw [Context.caller, Context.caller, hctx.left_limits, hctx.right_limits]
  exact hcallers

end Capping

/-! ### Loops that are cut off -/

/-- Loops that are cut off after as many rounds on both sides keep in step, as soon as being cut
off does. -/
theorem Lockstep.loopers_loopUpTo {P : Position → Position → Prop} {l r : Settings}
    {S : Lockstep P l r} (hcalling : S.Calling)
    (hcut : S.Rel (α := Bindings) Eq (fun m => .stopped .unfinished m)
      (fun m => .stopped .unfinished m)) (rounds : Nat) :
    S.Loopers (loopUpTo rounds) (loopUpTo rounds) := by
  intro ctx ctx' hctx hcalls condition body vars
  induction rounds generalizing vars with
  | zero => exact hcut
  | succ rounds ih =>
    refine S.bind_eq (Lockstep.round hctx (hcalling hctx hcalls) condition body vars) fun r => ?_
    cases r with
    | none => exact S.pure rfl
    | some vars => exact ih vars

theorem capping_loopers {s : Settings} {lower higher : Nat} (h : lower < higher) (rounds : Nat) :
    (capping s lower higher).Loopers (loopUpTo rounds) (loopUpTo rounds) :=
  Lockstep.loopers_loopUpTo (capping_calling h)
    ⟨⟨fun m => .refl m, fun hb => by cases hb⟩, fun _ hm => .stopped hm⟩ rounds

/-! ### How far a run comes -/

/-- **A run whose loops are cut off** after a number of rounds. -/
def runUpTo (s : Settings) (w : World) (script : Script) (rounds : Nat) : Run :=
  (runStatements (loopUpTo rounds) s w script.statements ⟨0, []⟩).run

/-- **The greatest depth that a run reaches**, be it that it goes on for good. -/
noncomputable def depthReached (s : Settings) (w : World) (script : Script) : Nat :=
  ⨆ rounds, (runUpTo s w script rounds).meter.deepest

/-- A run **fails at a depth** when the calls go deeper than that: as many are open as the limit
allows, and its stack trace shows them all. -/
def Run.FailsAtDepth (r : Run) (limit : Nat) : Prop :=
  ∃ failure, r.result = .error (.failed failure) ∧ failure.fault = .tooDeep limit ∧
    failure.trace.length = limit + 1

theorem Failure.length_trace (f : Failure) : f.trace.length = f.calls.length + 1 := by
  rcases hcalls : f.calls with _ | ⟨call, calls⟩
  · simp only [trace, hcalls, List.length_singleton, List.length_nil]
  · simp only [trace, hcalls, List.length_cons]

section Reach

variable {s : Settings} {w : World} {script : Script}

/-- Loops that are cut off at some round do not matter to a run that comes to its end before. -/
theorem runScript_eq_runUpTo {rounds : Nat}
    (h : (runUpTo s w script rounds).result ≠ .error .unfinished) :
    runScript s w script = runUpTo s w script rounds := by
  rw [runScript_eq_run, runUpTo]
  rcases (approaches_runStatements s w script.statements).cut_or_eq rounds ⟨0, []⟩ with
    ⟨n, hn⟩ | heq
  · rw [runUpTo, hn] at h
    exact absurd rfl h
  · rw [heq]

/-- A run that comes to its end does so after some number of rounds. -/
theorem exists_runUpTo_eq (h : (runScript s w script).result ≠ .error .unfinished) :
    ∃ enough, ∀ rounds, enough ≤ rounds → runUpTo s w script rounds = runScript s w script := by
  rw [runScript_eq_run] at h ⊢
  rcases (approaches_runStatements s w script.statements).eventually_eq ⟨0, []⟩ with
    ⟨n, hn⟩ | ⟨enough, henough⟩
  · rw [hn] at h
    exact absurd rfl h
  · exact ⟨enough, fun rounds hrounds => by rw [runUpTo, henough rounds hrounds]⟩

/-- Runs with the same outcomes after any number of rounds have the same result, and are the same
if they come to an end. -/
theorem runScript_congr {s' : Settings}
    (h : ∀ rounds, runUpTo s' w script rounds = runUpTo s w script rounds) :
    (runScript s' w script).result = (runScript s w script).result ∧
      ((runScript s w script).result ≠ .error .unfinished →
        runScript s' w script = runScript s w script) := by
  -- a run that comes to an end is one that is cut off late enough
  have hfinished : ∀ {l r : Settings},
      (∀ rounds, runUpTo r w script rounds = runUpTo l w script rounds) →
      (runScript l w script).result ≠ .error .unfinished →
      runScript r w script = runScript l w script := by
    intro l r hsame hl
    obtain ⟨enough, henough⟩ := exists_runUpTo_eq hl
    have hrun := henough enough (Nat.le_refl _)
    have hsame' := (hsame enough).trans hrun
    rw [runScript_eq_runUpTo (by rw [hsame']; exact hl), hsame']
  refine ⟨?_, hfinished h⟩
  -- where the one goes on for good the other does too, for it cannot end alone
  by_cases hs : (runScript s w script).result = .error .unfinished
  · rw [hs]
    by_contra hs'
    have heq := hfinished (fun rounds => (h rounds).symm) hs'
    rw [← heq] at hs'
    exact hs' hs
  · rw [hfinished h hs]

variable (s w script)

/-- **Two runs with different limits go together** until a call is one too deep for the lower limit.
-/
theorem capped_runStatements {lower higher : Nat} (h : lower < higher) (rounds : Nat) :
    Capped lower (World.Matches Eq)
      (runStatements (loopUpTo rounds) (s.withDepth lower) w script.statements ⟨0, []⟩)
      (runStatements (loopUpTo rounds) (s.withDepth higher) w script.statements ⟨0, []⟩) := by
  have hss : List.Forall₂ (Stmt.Matches Eq) script.statements script.statements :=
    List.forall₂_same.2 fun s _ => s.matches_refl
  exact (Lockstep.runStatements (capping_calling h) (capping_loopers h rounds)
    (World.matches_refl w) hss).2 ⟨0, []⟩ (Nat.zero_le _)

/-- **A run under a lower limit** keeps to it and is the run under the higher one, or it fails at
its limit and the other run goes deeper. -/
theorem runUpTo_withDepth {lower higher : Nat} (h : lower < higher) (rounds : Nat) :
    (runUpTo (s.withDepth lower) w script rounds).meter.deepest ≤ lower ∧
      (runUpTo (s.withDepth lower) w script rounds = runUpTo (s.withDepth higher) w script rounds ∨
        (runUpTo (s.withDepth lower) w script rounds).FailsAtDepth lower ∧
          lower < (runUpTo (s.withDepth higher) w script rounds).meter.deepest) := by
  have hcapped := capped_runStatements s w script h rounds
  rw [runUpTo, runUpTo, Outcome.meter_run, Outcome.meter_run]
  generalize runStatements (loopUpTo rounds) (s.withDepth lower) w script.statements ⟨0, []⟩ = o
    at hcapped ⊢
  generalize runStatements (loopUpTo rounds) (s.withDepth higher) w script.statements ⟨0, []⟩ = o'
    at hcapped ⊢
  cases hcapped with
  | done hv hn =>
    obtain rfl := World.eq_of_matches hv
    exact ⟨hn, Or.inl rfl⟩
  | stopped hn => exact ⟨hn, Or.inl rfl⟩
  | @tooDeep site frames n _ hn hlength hdeeper =>
    refine ⟨hn, Or.inr ⟨⟨⟨.tooDeep lower, site, frames⟩, rfl, rfl, ?_⟩, hdeeper⟩⟩
    rw [Failure.length_trace, hlength]

/-- **No run goes deeper than its limit.** -/
theorem deepest_runUpTo_le (rounds : Nat) :
    (runUpTo s w script rounds).meter.deepest ≤ s.limits.depth :=
  (runUpTo_withDepth s w script (Nat.lt_succ_self s.limits.depth) rounds).1

theorem bddAbove_deepest :
    BddAbove (Set.range fun rounds => (runUpTo s w script rounds).meter.deepest) := by
  refine ⟨s.limits.depth, ?_⟩
  rintro _ ⟨rounds, rfl⟩
  exact deepest_runUpTo_le s w script rounds

theorem deepest_le_depthReached (rounds : Nat) :
    (runUpTo s w script rounds).meter.deepest ≤ depthReached s w script :=
  le_ciSup (bddAbove_deepest s w script) rounds

theorem exists_deepest_eq_depthReached :
    ∃ rounds, (runUpTo s w script rounds).meter.deepest = depthReached s w script :=
  Nat.sSup_mem (Set.range_nonempty _) (bddAbove_deepest s w script)

theorem depthReached_le : depthReached s w script ≤ s.limits.depth := by
  obtain ⟨rounds, hrounds⟩ := exists_deepest_eq_depthReached s w script
  rw [← hrounds]
  exact deepest_runUpTo_le s w script rounds

variable {s w script}

/-- The depth that a run reaches which comes to an end is the greatest one in its records. -/
theorem depthReached_of_finished (h : (runScript s w script).result ≠ .error .unfinished) :
    depthReached s w script = (runScript s w script).meter.deepest := by
  obtain ⟨enough, henough⟩ := exists_runUpTo_eq h
  obtain ⟨rounds, hrounds⟩ := exists_deepest_eq_depthReached s w script
  refine Nat.le_antisymm ?_ ?_
  · -- the run reaches that depth after some rounds, and all rounds together lead as far at least
    have hbefore := before_runStatements_loopUpTo s w script.statements ⟨0, []⟩
      (Nat.le_max_left rounds enough)
    rw [← hrounds, ← henough _ (Nat.le_max_right rounds enough), runUpTo, runUpTo,
      Outcome.meter_run, Outcome.meter_run]
    exact hbefore.deepest_le
  · rw [← henough enough (Nat.le_refl _)]
    exact deepest_le_depthReached s w script enough

/-! ### The limit is transparent and exact -/

/-- **A limit that a run does not come to does not matter.** -/
theorem runUpTo_of_depthReached_le {depth : Nat}
    (hrun : ¬(runScript s w script).FailsAtDepth s.limits.depth)
    (h : depthReached s w script ≤ depth) (rounds : Nat) :
    runUpTo (s.withDepth depth) w script rounds = runUpTo s w script rounds := by
  rcases Nat.lt_trichotomy depth s.limits.depth with hlt | heq | hgt
  · obtain ⟨-, hsame | ⟨-, hdeeper⟩⟩ := runUpTo_withDepth s w script hlt rounds
    · exact hsame
    · have hreached := deepest_le_depthReached s w script rounds
      have hdeeper' : depth < (runUpTo s w script rounds).meter.deepest := hdeeper
      omega
  · rw [heq]
    rfl
  · obtain ⟨-, hsame | ⟨hfails, -⟩⟩ := runUpTo_withDepth s w script hgt rounds
    · exact hsame.symm
    · -- then the run itself fails at its limit, whatever its loops would go on to do
      obtain ⟨failure, hresult, hfailure⟩ := hfails
      have heq : runScript s w script = runUpTo s w script rounds :=
        runScript_eq_runUpTo fun hunfinished => by cases hunfinished.symm.trans hresult
      exact absurd ⟨failure, heq ▸ hresult, hfailure⟩ hrun

/-- **A limit that a run goes beyond makes it fail** with as many open calls as the limit
allows. -/
theorem failsAtDepth_of_lt_depthReached {depth : Nat} (h : depth < depthReached s w script) :
    (runScript (s.withDepth depth) w script).FailsAtDepth depth := by
  obtain ⟨rounds, hrounds⟩ := exists_deepest_eq_depthReached s w script
  have hlt : depth < s.limits.depth := h.trans_le (depthReached_le s w script)
  obtain ⟨hdeepest, hsame | ⟨hfails, -⟩⟩ := runUpTo_withDepth s w script hlt rounds
  · have hsame' : runUpTo (s.withDepth depth) w script rounds = runUpTo s w script rounds := hsame
    rw [hsame', hrounds] at hdeepest
    omega
  · obtain ⟨failure, hresult, hfailure⟩ := hfails
    have heq : runScript (s.withDepth depth) w script =
        runUpTo (s.withDepth depth) w script rounds :=
      runScript_eq_runUpTo fun hunfinished => by cases hunfinished.symm.trans hresult
    exact ⟨failure, heq ▸ hresult, hfailure⟩

end Reach

end Scriptlet
