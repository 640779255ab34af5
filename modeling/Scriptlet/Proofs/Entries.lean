import Scriptlet.Console.Entry
import Scriptlet.Proofs.Running.Assignments
import Scriptlet.Proofs.Running.Validity

/-!
# What an entry reports

The report of an entry is not made from the assignments that the entry has carried out. It compares
the variables before the entry with those after it, and equality of values is what it goes by.

An entry that runs to its end has a log of assignments, and a variable that is not in the log has
the value that it had. Were equality the identity, it would never be reported, and a variable
whose value is another one always would. Equality differs from the identity in two respects
(`Value.equal_iff`), and so does the report. A variable whose value holds a non-number is in every
report, whether it was assigned or not; and a variable is not in the report when nothing but signs
of zeros has changed in its value, although these are shown. In all other cases the report is right.

The third respect, that an invalid value is not equal to itself, does not matter: no session holds
one.
-/

namespace Scriptlet

/-! ### The changes from one session to another -/

namespace Change

variable {before after : Session} {vars : Bindings} {x f : Bytes} {v : Value}

theorem defined_mem_between_iff :
    .defined f ∈ between before after ↔ f ∈ after.functions ∧ f ∉ before.functions := by
  simp [between, definitions, assignments]

theorem assigned_mem_between_iff :
    .assigned x v ∈ between before after ↔
      after.bindings.get? x = some v ∧ isKept before.bindings x v = false := by
  simp [between, definitions, assignments, Table.get?_eq_some_iff]

/-- **When a variable is taken to be as it was**: it had a value that is the same up to signs of
zeros and holds no non-number. -/
theorem isKept_iff (hvalid : vars.Valid) :
    isKept vars x v = true ↔ ∃ w, vars.get? x = some w ∧ w.plusZeros = v.plusZeros ∧
      .number Float.nan ∉ w.parts := by
  cases hw : vars.get? x with
  | none => simp [isKept, hw]
  | some w =>
    have hsolid : w.Solid ↔ .number Float.nan ∉ w.parts :=
      ⟨Value.Solid.nan_not_mem, fun h => ⟨h, hvalid x w hw⟩⟩
    simp [isKept, hw, Value.equal_iff, hsolid]

theorem assigned_mem_between_of_unbound (h : before.bindings.get? x = none)
    (hv : after.bindings.get? x = some v) : .assigned x v ∈ between before after :=
  assigned_mem_between_iff.2 ⟨hv, by rw [isKept, h]⟩

/-- A variable with another value than it had is reported, and so is one that had a non-number in
its value, unless the two values differ in signs of zeros at most. -/
theorem assigned_mem_between_iff_of_bound (hvalid : before.bindings.Valid) {w : Value}
    (hw : before.bindings.get? x = some w) (hv : after.bindings.get? x = some v) :
    .assigned x v ∈ between before after ↔
      w.plusZeros ≠ v.plusZeros ∨ .number Float.nan ∈ w.parts := by
  rw [assigned_mem_between_iff, ← Bool.not_eq_true, isKept_iff hvalid, hw, hv]
  simp only [Option.some.injEq, exists_eq_left', true_and, not_and_or, not_not]

end Change

/-! ### Entries -/

namespace Session

/-- **An entry has a log** in a session: it is a script, which runs to its end and assigns this. -/
def Logs (s : Session) (entry : Bytes) (script : Script) (log : Assignments) : Prop :=
  parse (entrySource entry) = .ok script ∧
    ∃ m, RunAssigns ⟨s.limits, none⟩ s.world script.statements ⟨0, []⟩ log m

/-- The session after a script that has assigned certain values. -/
def extend (s : Session) (script : Script) (log : Assignments) : Session :=
  { s with world := s.world.after script.statements log }

/-- **An entry with a log is run and reported**, and any other fails and changes nothing. -/
theorem evaluate_cases (s : Session) (entry : Bytes) :
    (∃ script log, s.Logs entry script log ∧ s.evaluate entry =
      (s.extend script log, ⟨Change.report (Change.between s (s.extend script log)), false⟩)) ∨
    (∀ script log, ¬s.Logs entry script log) ∧ ∃ text, s.evaluate entry = (s, ⟨text, true⟩) := by
  rcases s.exec_cases none (entrySource entry) with ⟨script, w, m, hparse, hrun, hexec⟩ | ⟨e, hexec⟩
  · obtain ⟨log, hlog, rfl⟩ := runStatements_eq_done_iff.1 hrun
    exact .inl ⟨script, log, ⟨hparse, m, hlog⟩, by rw [evaluate, hexec, extend]⟩
  · refine .inr ⟨?_, e.text, by rw [evaluate, hexec]⟩
    rintro script log ⟨hparse, m, hlog⟩
    have hrun := runStatements_eq_done_iff.2 ⟨log, hlog, rfl⟩
    have hresult := congrArg Prod.snd hexec
    simp only [exec, runSource, hparse, runScript, hrun] at hresult
    cases hresult

/-- A variable that is reported was assigned the value, or had it before and it holds a
non-number. -/
theorem mem_log_or_nan_mem {s : Session} {script : Script} {log : Assignments} {x : Bytes}
    {v : Value} (hvalid : s.bindings.Valid)
    (h : .assigned x v ∈ Change.between s (s.extend script log)) :
    (x, v) ∈ log ∨ s.bindings.get? x = some v ∧ .number Float.nan ∈ v.parts := by
  have hafter := (Change.assigned_mem_between_iff.1 h).1
  by_cases hx : x ∈ log.map Prod.fst
  · obtain ⟨u, hu, hget⟩ := Table.exists_get?_insertAll_of_mem s.bindings hx
    obtain rfl := Option.some.inj (hget.symm.trans hafter)
    exact .inl hu
  · have hbefore : s.bindings.get? x = some v :=
      (Table.get?_insertAll_of_not_mem s.bindings hx).symm.trans hafter
    have hor := (Change.assigned_mem_between_iff_of_bound hvalid hbefore hafter).1 h
    exact .inr ⟨hbefore, hor.resolve_left fun hne => hne rfl⟩

/-- **What an entry reports.** In a session that has come about by any operations, an entry without
a log fails and changes nothing. An entry with a log is run, and its report is made of the changes
from the session before it to the session after it:

* a function is in the report when it is new;
* a variable is in it only with the value that it has in the end, and only if the entry has assigned
  it that value, or it had the value before and there is a non-number in it;
* a variable that had no value is in it;
* a variable that had a value is in it exactly when the two differ in more than signs of zeros, or
  there is a non-number in the one that it had. -/
theorem evaluate_reports (limits : Limits) (ops : List Session.Op) (entry : Bytes) :
    let s := (Transcript.after limits ops).session
    (∃ script log, s.Logs entry script log ∧
      let after := s.extend script log
      let changes := Change.between s after
      s.evaluate entry = (after, ⟨Change.report changes, false⟩) ∧
      (∀ f, .defined f ∈ changes ↔ f ∈ after.functions ∧ f ∉ s.functions) ∧
      (∀ x v, .assigned x v ∈ changes → after.bindings.get? x = some v ∧
        ((x, v) ∈ log ∨ s.bindings.get? x = some v ∧ .number Float.nan ∈ v.parts)) ∧
      (∀ x v, s.bindings.get? x = none → after.bindings.get? x = some v →
        .assigned x v ∈ changes) ∧
      ∀ x w v, s.bindings.get? x = some w → after.bindings.get? x = some v →
        (.assigned x v ∈ changes ↔ w.plusZeros ≠ v.plusZeros ∨ .number Float.nan ∈ w.parts)) ∨
    (∀ script log, ¬s.Logs entry script log) ∧ ∃ text, s.evaluate entry = (s, ⟨text, true⟩) := by
  intro s
  -- values of a session are valid, so only a non-number can differ from itself
  have hvalid : s.bindings.Valid := Transcript.valid_after limits ops
  rcases s.evaluate_cases entry with ⟨script, log, hlog, heval⟩ | hfails
  · refine .inl ⟨script, log, hlog, heval, fun f => Change.defined_mem_between_iff, ?_,
      fun x v => Change.assigned_mem_between_of_unbound, ?_⟩
    · exact fun x v h => ⟨(Change.assigned_mem_between_iff.1 h).1, mem_log_or_nan_mem hvalid h⟩
    · exact fun x w v hw hv => Change.assigned_mem_between_iff_of_bound hvalid hw hv
  · exact .inr hfails

end Session

end Scriptlet
