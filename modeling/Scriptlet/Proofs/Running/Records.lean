import Scriptlet.Proofs.Running.Events
import Scriptlet.Proofs.Running.Traces

/-!
# Records of a run are a call tree

The records of a run are made when it is over, from its result and from its meter. Here it is shown
that they are what happened, told by the events of the run: each call that was opened has its
record, in the order in which they were opened, and the last record has the number of the steps that
were taken.

With the depths in the records a reader can draw the tree of the calls; and if the run fails, the
stack trace is in that tree: the calls that it shows are the last ones that were made at their
depths.
-/

namespace Scriptlet

section Events

variable (s : Settings) (w : World) (script : Script) (rounds : Nat)

/-- The calls that are opened in the course of a run, in order. -/
def callsUpTo : List CallRecord :=
  (eventsUpTo s w script rounds).filterMap Event.call?

/-- The number of steps that are taken in the course of a run. -/
def stepsUpTo : Nat :=
  (eventsUpTo s w script rounds).countP Event.isStep

variable {s w script rounds}

theorem steps_runUpTo : (runUpTo s w script rounds).meter.steps = stepsUpTo s w script rounds := by
  rw [meter_runUpTo, Meter.steps_after, Nat.zero_add]
  rfl

theorem calls_runUpTo :
    (runUpTo s w script rounds).meter.calls.reverse = callsUpTo s w script rounds := by
  rw [meter_runUpTo, Meter.calls_after]
  rfl

theorem leavesOpen_runStatements :
    (runStatements (loopUpTo rounds) s w script.statements ⟨0, []⟩).LeavesOpen s.limits.depth [] :=
  (Tells.runStatements s rounds w script.statements _).leavesOpen .start

theorem Outcome.LeavesOpen.opened_of_failed {limit : Nat} {frames : List Frame} {o : Outcome World}
    (h : o.LeavesOpen limit frames) {failure : Failure}
    (hfailed : o.run.result = .error (.failed failure)) :
    Opened limit failure.calls o.run.meter.calls := by
  cases o with
  | done v n => cases hfailed
  | stopped stop n =>
    cases hfailed
    exact h

/-- A run fails with calls open that are among those it has made. -/
theorem opened_of_failed {failure : Failure}
    (h : (runUpTo s w script rounds).result = .error (.failed failure)) :
    Opened s.limits.depth failure.calls (runUpTo s w script rounds).meter.calls :=
  leavesOpen_runStatements.opened_of_failed h

theorem nested_callsUpTo : Nested s.limits.depth (callsUpTo s w script rounds) := by
  obtain ⟨frames, hframes⟩ := (@leavesOpen_runStatements s w script rounds).exists_opened
  rw [← calls_runUpTo, runUpTo, Outcome.meter_run]
  exact hframes.nested

end Events

/-- The record that a run ends with. -/
inductive Run.EndsWith (r : Run) (steps : Nat) : Record → Prop where
  /-- It ran to its end. -/
  | finished {w : World} : r.result = .ok w → r.EndsWith steps (.finished steps w.bindings.size)
  /-- It stopped early. -/
  | stopped {stop : Stop} : r.result = .error stop → r.EndsWith steps (.stopped steps stop)

theorem Run.exists_records_eq (r : Run) (script : Script) :
    ∃ last, r.records script = .started script.statements.length ::
      r.meter.calls.reverse.map .called ++ [last] ∧ r.EndsWith r.meter.steps last := by
  rw [records]
  rcases hresult : r.result with stop | w
  · exact ⟨_, rfl, .stopped hresult⟩
  · exact ⟨_, rfl, .finished hresult⟩

/-- **The trace of a failure is in the tree of the calls**: each call that it shows is the last one
that was made at its depth. -/
theorem Opened.last_of_trace {limit : Nat} {failure : Failure} {calls : List CallRecord}
    (h : Opened limit failure.calls calls) {j : Nat} (hj : 1 ≤ j) (hlt : j < failure.trace.length) :
    ∃ frame, failure.trace[failure.trace.length - j]? = some frame ∧
      LastAt j frame.function calls.reverse := by
  rw [failure.length_trace] at hlt ⊢
  have hi : failure.calls.length - j < failure.calls.length := by omega
  have hget := List.getElem?_eq_getElem hi
  refine ⟨failure.calls[failure.calls.length - j], ?_, ?_⟩
  · rw [Nat.sub_add_comm (by omega), failure.getElem?_trace_succ, hget]
  · have hlast := h.last hget
    rwa [Nat.sub_sub_self (by omega)] at hlast

/-- **The records of a run are a call tree.** A run that comes to an end is told by the events of
as many rounds as it takes, or more; and when events come to an end, it is the run that they tell.
Its records are, first, that it starts; then, in order, one for each call that is opened; and one
record in the end, that it ran to its end or that it stopped, with the number of steps that were
taken. If it failed and the stack trace has `n` frames, counted from zero, then for each depth `j`
from one to `n - 1` the last call of that depth is of the function in frame `n - j`.

The depth of the first call is one, and the depth of the next call is at least one, at most one more
and at most the limit. So it is in a run that goes on for good, too, however far one follows it. -/
theorem records_callTree (s : Settings) (w : World) (script : Script) :
    let run := runScript s w script
    let trace (failure : Failure) := (failure.toError script.source).trace
    (run.result ≠ .error .unfinished → ∃ enough, ∀ rounds, enough ≤ rounds →
      (Traced.runStatements s rounds w script.statements ⟨0, []⟩).1.run = run ∧
      (∃ last, run.records script = .started script.statements.length ::
          (callsUpTo s w script rounds).map .called ++ [last] ∧
        run.EndsWith (stepsUpTo s w script rounds) last) ∧
      ∀ failure, run.result = .error (.failed failure) → ∀ j, 1 ≤ j → j < (trace failure).length →
        ∃ frame, (trace failure)[(trace failure).length - j]? = some frame ∧
          LastAt j frame.function (callsUpTo s w script rounds)) ∧
    (∀ rounds, let told := (Traced.runStatements s rounds w script.statements ⟨0, []⟩).1.run
      told.result ≠ .error .unfinished → told = run) ∧
    ∀ rounds, Nested s.limits.depth (callsUpTo s w script rounds) := by
  intro run trace
  refine ⟨fun hend => ?_, fun rounds => ?_, fun rounds => nested_callsUpTo⟩
  · obtain ⟨enough, henough⟩ := exists_runUpTo_eq hend
    refine ⟨enough, fun rounds hrounds => ?_⟩
    -- the run is cut off nowhere, so its meter is what the events make of it
    have hrun : runUpTo s w script rounds = run := henough rounds hrounds
    rw [← hrun, ← calls_runUpTo, ← steps_runUpTo]
    refine ⟨?_, Run.exists_records_eq _ script, fun failure hfailed j hj hlt => ?_⟩
    · exact Traced.run_runStatements s w script rounds
    · exact (opened_of_failed hfailed).last_of_trace hj hlt
  · rw [Traced.run_runStatements s w script rounds]
    exact fun hend => (runScript_eq_runUpTo hend).symm

/-- A function that does not return is called in another one: the two calls have their records, and
each is the last one at its depth. -/
theorem records_callTree_calleeWithoutReturn :
    let run := runScript ⟨.standard, none⟩ .empty calleeWithoutReturn
    ∃ calls last, run.records calleeWithoutReturn = .started 3 :: calls.map .called ++ [last] ∧
      run.EndsWith 10 last ∧ LastAt 1 [102] calls ∧ LastAt 2 [103] calls ∧ Nested 1000 calls := by
  intro run
  have hfailed : run.result =
      .error (.failed ⟨.noReturn [103], ⟨1, 1⟩, [⟨[103], ⟨4, 13⟩⟩, ⟨[102], ⟨5, 5⟩⟩]⟩) := rfl
  have hend : run.result ≠ .error .unfinished := by
    rw [hfailed]
    intro h
    cases h
  obtain ⟨henough, -, hnested⟩ := records_callTree ⟨.standard, none⟩ .empty calleeWithoutReturn
  obtain ⟨enough, htold⟩ := henough hend
  obtain ⟨hrun, ⟨last, hrecords, hlast⟩, htrace⟩ := htold enough (Nat.le_refl enough)
  obtain ⟨f, hf, hlastF⟩ := htrace _ hfailed 1 (by decide) (by decide)
  obtain ⟨g, hg, hlastG⟩ := htrace _ hfailed 2 (by decide) (by decide)
  obtain rfl := Option.some.inj hf
  obtain rfl := Option.some.inj hg
  have hsteps : stepsUpTo ⟨.standard, none⟩ .empty calleeWithoutReturn enough = 10 := by
    rw [← steps_runUpTo, ← Traced.run_runStatements, hrun]
    rfl
  exact ⟨_, last, hrecords, hsteps ▸ hlast, hlastF, hlastG, hnested enough⟩

end Scriptlet
