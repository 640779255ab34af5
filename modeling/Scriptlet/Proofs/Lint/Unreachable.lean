import Scriptlet.Proofs.Lint.Alarms
import Scriptlet.Proofs.Parsing.Lines
import Scriptlet.Proofs.Running.Depth
import Scriptlet.Proofs.Running.Returns

/-!
# Removing what is unreachable

What the analysis calls unreachable can be taken out of a script, and no run is any the wiser:
whatever the settings are and whatever the run starts from, it leaves the same variables or fails
with the same report, after the same steps, and with the same records.

A warning names a function and a position, and these are all that there is to tell which clause it
is about. So this is about scripts that were parsed: in those every clause has a line of its own,
and the clauses that the warnings tell of are those after the first return of each body, no more and
no less (`statements_withoutUnreachable`). The rest is that nothing runs after a return.
-/

namespace Scriptlet

variable {owner : Bytes} {known : Lint.Known}

/-! ### Clauses reported as unreachable -/

/-- No expression is called unreachable. -/
theorem not_mem_expression_unreachable {name : Bytes} {p : Position} (e : Expr Position) :
    ⟨name, p, .unreachable⟩ ∉ Lint.expression owner known e := by
  intro h
  rw [expression_eq_filterMap, List.mem_filterMap] at h
  obtain ⟨c, -, hwarning⟩ := h
  obtain ⟨finding, hfinding, heq⟩ := Option.map_eq_some_iff.1 hwarning
  obtain rfl : finding = .unreachable := congrArg Warning.finding heq
  unfold Lint.callFinding? at hfinding
  split at hfinding
  · cases hfinding
  · split at hfinding
    · cases hfinding
    · cases hfinding

theorem not_mem_clause_unreachable {name : Bytes} {p : Position} (c : Clause Position) :
    ⟨name, p, .unreachable⟩ ∉ Lint.clause known c := by
  cases c with
  | assign mark x value => exact not_mem_expression_unreachable value
  | ret mark value =>
    intro h
    rcases List.mem_cons.1 h with h | h
    · cases h
    · exact not_mem_expression_unreachable value h

/-- In a body those clauses are reported that stand after its first return. -/
theorem mem_body_unreachable_iff {name : Bytes} {p : Position} {before : Clause Position}
    {body : List (Clause Position)} :
    ⟨name, p, .unreachable⟩ ∈ Lint.body owner known before body ↔
      name = owner ∧ p ∈ (afterReturn body).map Clause.mark := by
  induction body generalizing before with
  | nil => simp [Lint.body, afterReturn]
  | cons c body ih =>
    cases c with
    | assign mark x value =>
      rw [Lint.body, List.mem_append, ih]
      exact or_iff_right (not_mem_expression_unreachable value)
    | ret mark value =>
      rw [Lint.body, List.mem_append, or_iff_right (not_mem_expression_unreachable value),
        List.mem_map, afterReturn, List.mem_map]
      constructor
      · rintro ⟨c, hc, heq⟩
        cases heq
        exact ⟨rfl, c, hc, rfl⟩
      · rintro ⟨rfl, c, hc, rfl⟩
        exact ⟨c, hc, rfl⟩

/-- In a function the clauses behind its first return are called so, and no others. -/
theorem mem_function_unreachable_iff {name name' : Bytes} {p : Position} {f : Func Position} :
    ⟨name', p, .unreachable⟩ ∈ Lint.function name known f ↔
      name' = name ∧ p ∈ (afterReturn f.body).map Clause.mark := by
  unfold Lint.function
  split
  · rename_i hbody
    simp [hbody, afterReturn]
  · rename_i first clauses hbody
    rw [mem_body_unreachable_iff, hbody]

/-- **What is reported as unreachable** are the clauses after the first return of a function. -/
theorem mem_warnings_unreachable_iff {script : Script} {name : Bytes} {p : Position} :
    ⟨name, p, .unreachable⟩ ∈ script.warnings ↔
      ∃ f, .func name f ∈ script.statements ∧ p ∈ (afterReturn f.body).map Clause.mark := by
  rw [Script.warnings, List.mem_mergeSort, mem_statements_iff]
  constructor
  · rintro ⟨before, stmt, after, hss, hstmt⟩
    cases stmt with
    | clause c =>
      rcases hstmt with h | h | h
      · exact absurd h (not_mem_clause_unreachable c)
      · cases h
      · cases h
    | func name' f =>
      rcases hstmt with h | h | h
      · cases h
      · cases h
      · obtain ⟨rfl, hp⟩ := mem_function_unreachable_iff.1 h
        exact ⟨f, by simp [hss], hp⟩
    | cond mark condition body | loop mark condition body =>
      rcases hstmt with h | h | h
      · exact absurd h (not_mem_expression_unreachable condition)
      · obtain ⟨c, -, h⟩ := List.mem_flatMap.1 h
        exact absurd h (not_mem_clause_unreachable c)
      · cases h
  · rintro ⟨f, hf, hp⟩
    obtain ⟨before, after, hss⟩ := List.append_of_mem hf
    exact ⟨before, _, after, hss, .inr (.inr (mem_function_unreachable_iff.2 ⟨rfl, hp⟩))⟩

/-! ### Taking them out -/

/-- The statement without the clauses of a function that warnings call unreachable. -/
def Stmt.withoutUnreachable (warnings : List Warning) : Stmt Position → Stmt Position
  | .func name f => .func name
    { f with body := f.body.filter fun c => ⟨name, c.mark, .unreachable⟩ ∉ warnings }
  | stmt => stmt

/-- **The script without all clauses that the analysis calls unreachable.** It keeps its source. -/
def Script.withoutUnreachable (script : Script) : Script :=
  { script with statements := script.statements.map (Stmt.withoutUnreachable script.warnings) }

/-- Filtering the later members out, told by what is different in all of them, leaves the earlier
ones. -/
theorem filter_not_mem_map {α β : Type} [DecidableEq β] (f : α → β) {l l' : List α}
    (h : ((l ++ l').map f).Nodup) : (l ++ l').filter (fun a => f a ∉ l'.map f) = l := by
  rw [List.map_append, List.nodup_append] at h
  obtain ⟨-, -, hne⟩ := h
  rw [List.filter_append, List.filter_eq_self.2, List.filter_eq_nil_iff.2, List.append_nil]
  · intro a ha
    simpa using ⟨a, ha, rfl⟩
  · intro a ha
    exact decide_eq_true fun hmem => hne _ (List.mem_map_of_mem ha) _ hmem rfl

/-- Marks that tell the clauses of a script apart tell its functions apart by any of their
clauses. -/
theorem eq_of_mark_mem {ss : List (Stmt Position)} (h : (ss.flatMap Stmt.lineMarks).Nodup)
    {name name' : Bytes} {f f' : Func Position} (hf : .func name f ∈ ss)
    (hf' : .func name' f' ∈ ss) {p : Position} (hp : p ∈ f.body.map Clause.mark)
    (hp' : p ∈ f'.body.map Clause.mark) : f = f' := by
  by_contra hne
  have hne : Stmt.func name f ≠ .func name' f' := fun heq => hne (Stmt.func.inj heq).2
  have hsymm : Std.Symm (Function.onFun List.Disjoint (Stmt.lineMarks : Stmt Position → _)) :=
    ⟨fun _ _ h => h.symm⟩
  have hdisjoint := (List.nodup_flatMap.1 h).2.forall hf hf' hne
  exact hdisjoint (List.mem_cons_of_mem _ hp) (List.mem_cons_of_mem _ hp')

/-- **Exactly what stands after returns is taken out** of a script whose marks tell its clauses
apart. -/
theorem statements_withoutUnreachable {script : Script}
    (h : (script.statements.flatMap Stmt.lineMarks).Nodup) :
    script.withoutUnreachable.statements = script.statements.map Stmt.toReturn := by
  refine List.map_congr_left fun stmt hstmt => ?_
  cases stmt with
  | clause | cond | loop => rfl
  | func name f =>
    -- a warning names a function and a place, and no other function has a clause at that place
    have hwarned : ∀ c ∈ f.body, ⟨name, c.mark, .unreachable⟩ ∈ script.warnings ↔
        c.mark ∈ (afterReturn f.body).map Clause.mark := by
      intro c hc
      rw [mem_warnings_unreachable_iff]
      refine ⟨?_, fun hmark => ⟨f, hstmt, hmark⟩⟩
      rintro ⟨f', hstmt', hmark⟩
      have hmark' : c.mark ∈ f'.body.map Clause.mark := by
        rw [← upToReturn_append_afterReturn f'.body, List.map_append]
        exact List.mem_append_right _ hmark
      rwa [eq_of_mark_mem h hstmt hstmt' (List.mem_map_of_mem hc) hmark']
    have hmarks : (f.body.map Clause.mark).Nodup :=
      (List.nodup_cons.1 ((List.nodup_flatMap.1 h).1 _ hstmt)).2
    -- within the body the marks tell what stands after the return from what stands before it
    have hbody : f.body.filter (fun c => ⟨name, c.mark, .unreachable⟩ ∉ script.warnings) =
        upToReturn f.body := by
      rw [List.filter_congr fun c hc => decide_eq_decide.2 (not_congr (hwarned c hc))]
      rw [← upToReturn_append_afterReturn f.body] at hmarks
      have hfilter := filter_not_mem_map Clause.mark hmarks
      rwa [upToReturn_append_afterReturn] at hfilter
    rw [Stmt.withoutUnreachable, Stmt.toReturn, Func.toReturn, hbody]

/-- Where nothing stands after returns, nothing is called unreachable. -/
theorem finding_ne_unreachable {script : Script} {ss : List (Stmt Position)}
    (h : script.statements = ss.map Stmt.toReturn) {warning : Warning}
    (hwarning : warning ∈ script.warnings) : warning.finding ≠ .unreachable := by
  obtain ⟨name, p, finding⟩ := warning
  rintro rfl
  obtain ⟨f, hf, hp⟩ := mem_warnings_unreachable_iff.1 hwarning
  rw [h] at hf
  obtain ⟨stmt, -, hstmt⟩ := List.mem_map.1 hf
  cases stmt with
  | func name' f' =>
    cases hstmt
    rw [Func.toReturn, afterReturn_upToReturn] at hp
    cases hp
  | clause | cond | loop => cases hstmt

/-! ### Runs -/

/-- What a run of a script tells of its end: the variables that it left, or the error, which quotes
the script. -/
def Run.answer (run : Run) (script : Script) : Except ScriptError Bindings :=
  (run.result.map World.bindings).mapError (.ofStop script.source)

/-- Outcomes with the same variables. -/
theorem run_eq_of_bindings {x y : Eval World} {m : Meter}
    (h : (x >>= fun w => pure w.bindings) m = (y >>= fun w => pure w.bindings) m) :
    (x m).run.result.map World.bindings = (y m).run.result.map World.bindings ∧
      (x m).run.meter = (y m).run.meter := by
  rcases hx : x m with ⟨w, n⟩ | ⟨s, n⟩
  · rw [Eval.bind_of_done hx] at h
    rcases hy : y m with ⟨w', n'⟩ | ⟨s', n'⟩
    · rw [Eval.bind_of_done hy] at h
      obtain ⟨hbindings, hmeter⟩ := Outcome.done.inj h
      exact ⟨congrArg Except.ok hbindings, hmeter⟩
    · rw [Eval.bind_of_stopped hy] at h
      cases h
  · rw [Eval.bind_of_stopped hx] at h
    rcases hy : y m with ⟨w', n'⟩ | ⟨s', n'⟩
    · rw [Eval.bind_of_done hy] at h
      cases h
    · rw [Eval.bind_of_stopped hy] at h
      obtain ⟨rfl, hmeter⟩ := Outcome.stopped.inj h
      exact ⟨rfl, hmeter⟩

/-- Runs that left the same variables or stopped for the same reason, and used the same, have the
same records. -/
theorem records_eq_of_bindings {run run' : Run} {script script' : Script}
    (hlength : script.statements.length = script'.statements.length)
    (hresult : run.result.map World.bindings = run'.result.map World.bindings)
    (hmeter : run.meter = run'.meter) : run.records script = run'.records script' := by
  rw [Run.records, Run.records, hlength, hmeter]
  rcases hrun : run.result with s | w
  · rcases hrun' : run'.result with s' | w'
    · rw [hrun, hrun'] at hresult
      rw [Except.error.inj hresult]
    · rw [hrun, hrun'] at hresult
      cases hresult
  · rcases hrun' : run'.result with s' | w'
    · rw [hrun, hrun'] at hresult
      cases hresult
    · rw [hrun, hrun'] at hresult
      have hbindings : w.bindings = w'.bindings := Except.ok.inj hresult
      simp only [hbindings]

/-- **Removing what is called unreachable changes nothing.** In a script that was parsed, take out
all clauses that the analysis calls unreachable. Then it calls nothing unreachable any more; and
every run comes to the same variables or the same error, with the same steps, calls and records,
whatever its settings are and wherever it starts. This is also so of runs whose loops are cut off
after any number of rounds, and thus of runs that go on for good. -/
theorem unreachable_removable {source : Bytes} {script : Script}
    (h : parse source = .ok script) :
    let script' := script.withoutUnreachable
    (∀ warning ∈ script'.warnings, warning.finding ≠ .unreachable) ∧
    ∀ (settings : Settings) (w : World),
      let run := runScript settings w script
      let run' := runScript settings w script'
      run'.answer script' = run.answer script ∧ run'.meter = run.meter ∧
      run'.records script' = run.records script ∧
      ∀ rounds,
        (runUpTo settings w script' rounds).answer script' =
          (runUpTo settings w script rounds).answer script ∧
        (runUpTo settings w script' rounds).meter = (runUpTo settings w script rounds).meter := by
  intro script'
  have hstatements : script'.statements = script.statements.map Stmt.toReturn :=
    statements_withoutUnreachable (nodup_lineMarks_of_parse h)
  refine ⟨fun warning hwarning => finding_ne_unreachable hstatements hwarning, ?_⟩
  intro settings w run run'
  -- one comparison of statements serves runs in full and runs that are cut off
  have hsame : ∀ {looper : Looper}, looper.ByRounds →
      (runStatements looper settings w script'.statements >>= fun w => pure w.bindings) =
        runStatements looper settings w script.statements >>= fun w => pure w.bindings := by
    intro looper hlooper
    rw [hstatements]
    exact runStatements_toReturn hlooper settings (.refl w.functions) script.statements
  obtain ⟨hresult, hmeter⟩ := run_eq_of_bindings (congrFun (hsame byRounds_loop) ⟨0, []⟩)
  rw [← runScript_eq_run, ← runScript_eq_run] at hresult hmeter
  have hlength : script'.statements.length = script.statements.length := by
    rw [hstatements, List.length_map]
  refine ⟨?_, hmeter, records_eq_of_bindings hlength hresult hmeter, fun rounds => ?_⟩
  · rw [Run.answer, Run.answer, hresult]
    rfl
  · obtain ⟨hresult, hmeter⟩ :=
      run_eq_of_bindings (congrFun (hsame (byRounds_loopUpTo rounds)) ⟨0, []⟩)
    refine ⟨?_, hmeter⟩
    rw [Run.answer, Run.answer, runUpTo, runUpTo, hresult]
    rfl

/-- A function that goes on after its return, and a call of it. -/
def returnedTwice : Script :=
  ⟨Bytes.ofString "func f()\n    return true\n    return false\na = f()",
    [.func [102]
        ⟨⟨1, 1⟩, [], [.ret ⟨2, 5⟩ (.bool ⟨2, 12⟩ true), .ret ⟨3, 5⟩ (.bool ⟨3, 12⟩ false)]⟩,
      .clause (.assign ⟨4, 1⟩ [97] (.call ⟨4, 5⟩ [102] []))]⟩

theorem parse_returnedTwice : parse returnedTwice.source = .ok returnedTwice := by
  let ss : List (Stmt Nat) :=
    [.func [102] ⟨0, [], [.ret 13 (.bool 20 true), .ret 29 (.bool 36 false)]⟩,
      .clause (.assign 42 [97] (.call 46 [102] []))]
  have hspells : Script.SpellsAt 0 ss returnedTwice.source := by
    have htrue : (Clause.ret 13 (.bool 20 true)).SpellsAt 13 (Bytes.ofString "return true") :=
      ⟨rfl, _, ⟨rfl, rfl⟩, rfl⟩
    have hfalse : (Clause.ret 29 (.bool 36 false)).SpellsAt 29 (Bytes.ofString "return false") :=
      ⟨rfl, _, ⟨rfl, rfl⟩, rfl⟩
    have hcall : (Clause.assign 42 [97] (.call 46 [102] [])).SpellsAt 42
        (Bytes.ofString "a = f()") :=
      ⟨rfl, _, ⟨rfl, _, rfl, rfl⟩, rfl⟩
    have hfunc : (Stmt.func [102] ⟨0, [], [.ret 13 (.bool 20 true),
        .ret 29 (.bool 36 false)]⟩).SpellsAt 0 _ :=
      ⟨rfl, _, _, rfl, ⟨_, _, rfl, ⟨_, rfl, htrue⟩, _, _, rfl, ⟨_, rfl, hfalse⟩, rfl⟩, rfl⟩
    refine ⟨_, _, ?_, hfunc, _, _, rfl, ⟨_, rfl, hcall⟩, rfl⟩
    rfl
  have hwf : Script.WellFormed ss := by
    have hname : ∀ b : UInt8, Bytes.isNameByte b = true → IsName [b] := fun b hb =>
      ⟨List.cons_ne_nil b [], List.forall_mem_singleton.2 hb⟩
    have hret : ∀ (o o' : Nat) (b : Bool), (Clause.ret o (.bool o' b)).WellFormed := fun _ _ _ =>
      ⟨trivial, Nat.zero_le _⟩
    have hcall : (Clause.assign 42 [97] (.call 46 [102] [])).WellFormed :=
      ⟨hname 97 rfl, ⟨hname 102 rfl, trivial⟩, by decide⟩
    refine ⟨List.cons_ne_nil _ _, List.forall_mem_cons.2 ⟨⟨hname 102 rfl, ?_, ?_⟩,
      List.forall_mem_singleton.2 hcall⟩⟩
    · exact fun _ h => absurd h List.not_mem_nil
    · exact List.forall_mem_cons.2 ⟨hret 13 20 true, List.forall_mem_singleton.2 (hret 29 36 false)⟩
  unfold parse
  rw [parseMarked_complete hspells hwf]
  rfl

/-- The second return is reported, and the run finds the same value without it. -/
theorem unreachable_removable_returnedTwice :
    parse returnedTwice.source = .ok returnedTwice ∧
      ⟨[102], ⟨3, 5⟩, .unreachable⟩ ∈ returnedTwice.warnings ∧
      (∀ warning ∈ returnedTwice.withoutUnreachable.warnings, warning.finding ≠ .unreachable) ∧
      (runScript ⟨.ofRequest 0 0 false, none⟩ .empty returnedTwice.withoutUnreachable).answer
          returnedTwice.withoutUnreachable =
        .ok (Table.empty.insert [97] (.bool true)) := by
  have hreported : ⟨[102], ⟨3, 5⟩, .unreachable⟩ ∈ returnedTwice.warnings :=
    mem_warnings_unreachable_iff.2 ⟨_, List.mem_cons_self, List.mem_singleton.2 rfl⟩
  obtain ⟨hwarnings, hruns⟩ := unreachable_removable parse_returnedTwice
  exact ⟨parse_returnedTwice, hreported, hwarnings, (hruns _ _).1.trans rfl⟩

end Scriptlet
