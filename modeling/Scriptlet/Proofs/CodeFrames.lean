import Scriptlet.Proofs.Parsing.Footholds
import Scriptlet.Proofs.Running.Traces
import Scriptlet.Proofs.Session

/-!
# Code frames in a session

In a session, functions outlive the sources that define them. A run can fail in a function of an
earlier source, and its position is a line and a column of that source then, while another source is
running. To say which source it is, every node is marked with its source beside its position
(`sourced`). The functions of a session are those that the sources define which it has kept, one
after another (`comeFrom_after`), so a run that fails does so at a node of the running source,
or at one of a function with a known source (`RunError.FailsAt`).

Every such position has a line in its source and a code frame there (`codeFrame_of_foothold`). But
the frame of the error is always taken from the source that is running (`session_frame`). When the
node is in another one, the frame shows a line that has nothing to do with the failure, or there is
no frame at all (`session_frame_lost`).
-/

namespace Scriptlet

/-! ### Nodes with their sources -/

/-- The statements of a source, all nodes marked with the source and their position in it. -/
def sourced (source : Bytes) : List (Stmt (Bytes × Position)) :=
  match parse source with
  | .ok script => script.statements.map (Stmt.map (source, ·))
  | .error _ => []

section Sourced

variable {source : Bytes} {script : Script}

theorem sourced_of_parse (h : parse source = .ok script) :
    sourced source = script.statements.map (Stmt.map (source, ·)) := by
  rw [sourced]
  simp only [h]

theorem Stmt.map_snd_map (source : Bytes) (s : Stmt Position) :
    (s.map fun p => (source, p)).map Prod.snd = s := by
  rw [Stmt.map_map]
  exact s.map_id

theorem Stmt.map_snd_map_list (source : Bytes) (ss : List (Stmt Position)) :
    (ss.map (Stmt.map fun p => (source, p))).map (Stmt.map Prod.snd) = ss := by
  rw [List.map_map]
  exact (List.map_congr_left fun s _ => s.map_snd_map source).trans (List.map_id ss)

/-- **A node marked with a source is one of that source.** Its position is that of a foothold. -/
theorem exists_foothold_of_mem_sourced {s : Stmt (Bytes × Position)} (hs : s ∈ sourced source)
    {mark : Bytes × Position} (hmark : mark ∈ s.marks) :
    mark.1 = source ∧ source ≠ [] ∧
      ∃ k, Foothold source k ∧ mark.2 = Position.ofOffset source k := by
  cases hparse : parse source with
  | error e => simp [sourced, hparse] at hs
  | ok script =>
    rw [sourced_of_parse hparse] at hs
    obtain ⟨stmt, hstmt, rfl⟩ := List.mem_map.1 hs
    rw [Stmt.marks_map] at hmark
    obtain ⟨p, hp, rfl⟩ := List.mem_map.1 hmark
    obtain ⟨ss, hss, -⟩ := bare_statements_of_parse hparse
    obtain ⟨k, -, hk, hposition⟩ := exists_mark_of_parse hss hparse hstmt hp
    exact ⟨rfl, ne_nil_of_parse hparse, k, hk, hposition⟩

end Sourced

/-- **The position of a foothold has a code frame**, which shows its line with the caret below its
column. -/
theorem codeFrame_of_foothold {source : Bytes} {k : Nat} (hsource : source ≠ [])
    (h : Foothold source k) :
    ∃ text, (Bytes.lines source)[(Position.ofOffset source k).line - 1]? = some text ∧
      codeFrame source (Position.ofOffset source k) =
        frameOfLine (Position.ofOffset source k).line (Position.ofOffset source k).column text := by
  obtain ⟨before, pre, post, after, hlines, -, hposition, hglyphs⟩ := h.exists_line
  have hline := getElem?_lines hlines
  have hcount : Bytes.glyphCount (pre ++ post) = Bytes.glyphCount pre + Bytes.glyphCount post := by
    rw [Bytes.glyphCount, hglyphs, List.length_append]
    rfl
  have hcolumn : min (Bytes.glyphCount pre) (Bytes.glyphCount (pre ++ post)) =
      Bytes.glyphCount pre := by
    omega
  rw [hposition]
  refine ⟨pre ++ post, hline, ?_⟩
  simp [codeFrame, hsource, hline, hcolumn]

/-! ### Functions and their sources -/

section Define

variable {α β : Type}

/-- Definitions do not look at marks. -/
theorem get?_foldl_define_map (g : α → β) (ss : List (Stmt α)) {known : Table (Func α)}
    {known' : Table (Func β)}
    (h : ∀ name, known'.get? name = (known.get? name).map (Func.map g)) (name : Bytes) :
    ((ss.map (Stmt.map g)).foldl Stmt.define known').get? name =
      ((ss.foldl Stmt.define known).get? name).map (Func.map g) := by
  induction ss generalizing known known' with
  | nil => exact h name
  | cons s ss ih =>
    rw [List.map_cons, List.foldl_cons, List.foldl_cons]
    refine ih fun other => ?_
    cases s with
    | func name f =>
      simp only [Stmt.map, Stmt.define, Table.get?_insert, h other]
      split <;> rfl
    | clause c => exact h other
    | cond mark condition body | loop mark condition body => exact h other

end Define

/-- The functions that sources define, one after another. -/
def definitions (sources : List Bytes) : Table (Func (Bytes × Position)) :=
  (sources.flatMap sourced).foldl Stmt.define .empty

/-- The functions of a table are given by others that are marked with their sources. -/
def ComeFrom (known : Table (Func Position)) (marked : Table (Func (Bytes × Position))) : Prop :=
  ∀ name, known.get? name = (marked.get? name).map (Func.map Prod.snd)

/-- Statements that are run define what they define when they are marked with a source. -/
theorem ComeFrom.foldl_define {known : Table (Func Position)}
    {marked : Table (Func (Bytes × Position))} (h : ComeFrom known marked) (source : Bytes)
    (ss : List (Stmt Position)) :
    ComeFrom (ss.foldl Stmt.define known)
      ((ss.map (Stmt.map (source, ·))).foldl Stmt.define marked) := by
  intro name
  have hmap := get?_foldl_define_map Prod.snd (ss.map (Stmt.map (source, ·))) h name
  rwa [Stmt.map_snd_map_list] at hmap

/-- **The functions of a session come from the sources that it has kept**, by what one operation
does. -/
theorem Transcript.comeFrom_apply {t : Transcript}
    (h : ComeFrom t.session.world.functions (definitions t.sources)) (op : Session.Op) :
    ComeFrom (t.apply op).session.world.functions (definitions (t.apply op).sources) := by
  cases op with
  | reset => exact fun name => rfl
  | exec cancelAt source =>
    rcases t.session.exec_cases cancelAt source with
      ⟨script, w, n, hparse, hrun, hexec⟩ | ⟨e, hexec⟩
    · rw [Transcript.apply, hexec]
      change ComeFrom w.functions (definitions (t.sources ++ [source]))
      rw [functions_of_runStatements hrun, definitions, List.flatMap_append, List.foldl_append,
        List.flatMap_singleton, sourced_of_parse hparse]
      exact h.foldl_define source script.statements
    · rw [Transcript.apply, hexec]
      exact h

/-- In every session the functions come from the sources that were run, and are found there with
their marks. -/
theorem comeFrom_after (limits : Limits) (ops : List Session.Op) :
    ComeFrom (Transcript.after limits ops).session.world.functions
      (definitions (Transcript.after limits ops).sources) := by
  suffices h : ∀ t : Transcript, ComeFrom t.session.world.functions (definitions t.sources) →
      ComeFrom (ops.foldl Transcript.apply t).session.world.functions
        (definitions (ops.foldl Transcript.apply t).sources) from h _ fun name => rfl
  induction ops with
  | nil => exact fun t h => h
  | cons op ops ih => exact fun t h => ih _ (Transcript.comeFrom_apply h op)

/-- A function that is known is one of some source. -/
theorem exists_sourced_of_get? {sources : List Bytes} {running name : Bytes}
    {before after : List (Stmt (Bytes × Position))} {f : Func (Bytes × Position)}
    (hrunning : sourced running = before ++ after)
    (h : (before.foldl Stmt.define (definitions sources)).get? name = some f) :
    ∃ origin ∈ running :: sources, .func name f ∈ sourced origin := by
  rcases get?_foldl_define h with h | h
  · rcases get?_foldl_define h with h | h
    · cases h
    · obtain ⟨origin, horigin, hf⟩ := List.mem_flatMap.1 h
      exact ⟨origin, List.mem_cons_of_mem _ horigin, hf⟩
  · exact ⟨running, List.mem_cons_self, hrunning ▸ List.mem_append_left _ h⟩

/-! ### Where a run fails in a session -/

/-- **The node at which a source fails in a session** that has kept certain sources; it is told by
its mark, a source and a position there. -/
inductive RunError.FailsAt (sources : List Bytes) (running : Bytes) (e : RunError) :
    Bytes × Position → Prop where
  /-- When no call is open, it is a node of a statement of the running source. -/
  | top {stmt : Stmt (Bytes × Position)} {mark : Bytes × Position} :
    stmt ∈ sourced running → e.trace = [⟨scriptName, mark.2⟩] → mark ∈ stmt.marks →
    FailsAt sources running e mark
  /-- Otherwise it is a node of the function that was called last. Which function that is depends on
  what was defined before the statement with the first call. -/
  | call {before after : List (Stmt (Bytes × Position))} {stmt : Stmt (Bytes × Position)}
    {mark : Bytes × Position} {name : Bytes} {site : Position} {outer : List Frame} {first : Frame}
    {args : List (Expr (Bytes × Position))} {f : Func (Bytes × Position)} :
    sourced running = before ++ stmt :: after →
    e.trace = ⟨name, mark.2⟩ :: ⟨name, site⟩ :: outer →
    (⟨name, site⟩ :: outer).getLast? = some first →
    .call (running, first.position) first.function args ∈ stmt.parts →
    (before.foldl Stmt.define (definitions sources)).get? name = some f →
    mark ∈ (Stmt.func name f).marks → FailsAt sources running e mark

/-- The node that fails is in a source that is running or was kept, and its position there is that
of a foothold. -/
theorem RunError.FailsAt.exists_foothold {sources : List Bytes} {running : Bytes} {e : RunError}
    {mark : Bytes × Position} (h : e.FailsAt sources running mark) :
    mark.1 ∈ running :: sources ∧ mark.1 ≠ [] ∧
      ∃ k, Foothold mark.1 k ∧ mark.2 = Position.ofOffset mark.1 k := by
  obtain ⟨origin, horigin, s, hs, hmark⟩ :
      ∃ origin ∈ running :: sources, ∃ s ∈ sourced origin, mark ∈ s.marks := by
    cases h with
    | top hstmt _ hmark => exact ⟨running, List.mem_cons_self, _, hstmt, hmark⟩
    | call hrunning _ _ _ hf hmark =>
      obtain ⟨origin, horigin, hfunc⟩ := exists_sourced_of_get? hrunning hf
      exact ⟨origin, horigin, _, hfunc, hmark⟩
  obtain ⟨rfl, hfoothold⟩ := exists_foothold_of_mem_sourced hs hmark
  exact ⟨horigin, hfoothold⟩

/-- The first call of a chain is one in the statement that runs. -/
theorem Chain.exists_first {known : Table (Func Position)} {stmt : Stmt Position}
    {frames : List Frame} {code : Code} (hchain : Chain known stmt frames code)
    (hopen : frames ≠ []) :
    ∃ first args, frames.getLast? = some first ∧
      .call first.position first.function args ∈ stmt.parts := by
  induction hchain with
  | top => exact absurd rfl hopen
  | @call frames code site name args f hchain hsite hf ih =>
    cases hchain with
    | top => exact ⟨_, args, rfl, Stmt.parts_code stmt ▸ hsite⟩
    | call hchain' hsite' hf' =>
      obtain ⟨first, args, hlast, hmem⟩ := ih (List.cons_ne_nil _ _)
      exact ⟨first, args, (List.getLast?_cons_cons).trans hlast, hmem⟩

/-- A source that fails in a session fails in its run, and the error is made up with this source. -/
theorem Session.failure_of_exec {s : Session} {cancelAt : Option Nat} {source : Bytes}
    {e : RunError} (h : (s.exec cancelAt source).2 = .error (.failed e)) :
    ∃ script failure, parse source = .ok script ∧
      (runScript ⟨s.limits, cancelAt⟩ s.world script).result = .error (.failed failure) ∧
      e = failure.toError source := by
  rcases hparse : parse source with error | script
  · simp [exec, runSource, hparse] at h
  · cases hrun : (runScript ⟨s.limits, cancelAt⟩ s.world script).result with
    | ok w => simp [exec, runSource, hparse, hrun] at h
    | error stop =>
      simp only [exec, runSource, hparse, hrun] at h
      cases stop with
      | failed failure =>
        cases h
        exact ⟨script, failure, rfl, hrun, rfl⟩
      | cancelled | unfinished => cases h

/-- A failure at a place is reported at a node of the code that runs, or at the definition of the
function that was called last. -/
theorem Reported.mem_marks {known : Table (Func Position)} {code : Code} {failure : Failure}
    (h : Reported known code failure) (hplace : failure.position ≠ .none) :
    failure.position ∈ code.marks ∨ ∃ name site outer f, failure.calls = ⟨name, site⟩ :: outer ∧
      known.get? name = some f ∧ failure.position = f.mark := by
  cases h with
  | node _ hposition => exact .inl hposition
  | noReturn hf => exact .inr ⟨_, _, _, _, rfl, hf, rfl⟩
  | tooManySteps => exact absurd rfl hplace

theorem Stmt.mem_marks_of_code {s : Stmt Position} {p : Position} (h : p ∈ s.code.marks) :
    p ∈ s.marks := by
  cases s with
  | func name f => cases h
  | clause c => exact h
  | cond mark condition body | loop mark condition body => exact h

section Fails

variable {sources : List Bytes} {source : Bytes} {script : Script} {known : Table (Func Position)}
  {before after : List (Stmt Position)} {stmt : Stmt Position} {failure : Failure} {code : Code}

theorem sourced_split (hparse : parse source = .ok script)
    (hss : script.statements = before ++ stmt :: after) :
    sourced source = before.map (Stmt.map (source, ·)) ++
      stmt.map (source, ·) :: after.map (Stmt.map (source, ·)) := by
  rw [sourced_of_parse hparse, hss, List.map_append, List.map_cons]

/-- A failure on the top level is at a node of the running source. -/
theorem failsAt_top (hparse : parse source = .ok script)
    (hss : script.statements = before ++ stmt :: after) (hcalls : failure.calls = [])
    (hposition : failure.position ∈ stmt.code.marks) :
    (failure.toError source).FailsAt sources source (source, failure.position) := by
  have hmem : stmt.map (source, ·) ∈ sourced source :=
    sourced_split hparse hss ▸ List.mem_append_right _ List.mem_cons_self
  have hmark : (source, failure.position) ∈ (stmt.map (source, ·)).marks := by
    rw [Stmt.marks_map]
    exact List.mem_map_of_mem (Stmt.mem_marks_of_code hposition)
  have htrace : (failure.toError source).trace = [⟨scriptName, failure.position⟩] := by
    rw [Failure.toError, Failure.trace, hcalls]
  exact .top hmem htrace hmark

/-- A failure in a function is at a node of the source that the function comes from. -/
theorem exists_failsAt_call (hparse : parse source = .ok script)
    (hss : script.statements = before ++ stmt :: after)
    (hknown : ComeFrom known (definitions sources))
    (hchain : Chain (before.foldl Stmt.define known) stmt failure.calls code) {name : Bytes}
    {site : Position} {outer : List Frame} (hcalls : failure.calls = ⟨name, site⟩ :: outer)
    {f : Func Position} (hf : (before.foldl Stmt.define known).get? name = some f)
    (hposition : failure.position ∈ (Stmt.func name f).marks) :
    ∃ origin, (failure.toError source).FailsAt sources source (origin, failure.position) := by
  have hsourced := sourced_split hparse hss
  obtain ⟨f', hf', rfl⟩ :=
    Option.map_eq_some_iff.1 ((hknown.foldl_define source before name).symm.trans hf)
  -- A mark of the function with this position has the source of the function beside it.
  obtain ⟨⟨origin, position⟩, hmark, hplace⟩ :
      ∃ mark ∈ (Stmt.func name f').marks, mark.2 = failure.position :=
    List.mem_map.1 (Stmt.marks_map Prod.snd (.func name f') ▸ hposition)
  obtain rfl : position = failure.position := hplace
  obtain ⟨first, args, hlast, hfirst⟩ := hchain.exists_first (hcalls ▸ List.cons_ne_nil _ _)
  have hfirst' : .call (source, first.position) first.function (Expr.mapList (source, ·) args) ∈
      (stmt.map (source, ·)).parts := by
    rw [Stmt.parts_map]
    exact List.mem_map_of_mem (f := Expr.map (source, ·)) hfirst
  have htrace : (failure.toError source).trace =
      ⟨name, failure.position⟩ :: ⟨name, site⟩ :: outer := by
    rw [Failure.toError, Failure.trace, hcalls]
  exact ⟨origin, .call hsourced htrace (hcalls ▸ hlast) hfirst' hf' hmark⟩

/-- **A failure is at a node with a source**, when the known functions come from sources. -/
theorem exists_failsAt (hparse : parse source = .ok script)
    (hss : script.statements = before ++ stmt :: after)
    (hknown : ComeFrom known (definitions sources))
    (hchain : Chain (before.foldl Stmt.define known) stmt failure.calls code)
    (hreported : Reported (before.foldl Stmt.define known) code failure)
    (hplace : failure.position ≠ .none) :
    ∃ origin, (failure.toError source).FailsAt sources source (origin, failure.position) := by
  rcases hreported.mem_marks hplace with hposition | ⟨name, site, outer, f, hcalls, hf, hposition⟩
  · rcases hcalls : failure.calls with _ | ⟨⟨name, site⟩, outer⟩
    · rw [hcalls] at hchain
      cases hchain with
      | top => exact ⟨source, failsAt_top hparse hss hcalls hposition⟩
    · have hchain' := hchain
      rw [hcalls] at hchain'
      cases hchain' with
      | call _ _ hf =>
        exact exists_failsAt_call hparse hss hknown hchain hcalls hf
          (List.mem_cons_of_mem _ hposition)
  · exact exists_failsAt_call hparse hss hknown hchain hcalls hf (hposition ▸ List.mem_cons_self)

end Fails

/-- **Code frames in a session.** When a source fails in a session, at some place, the code frame
is that of its own line with the number of the place. The node that fails is in a source that the
session runs or has kept, and this one does have the line, and a code frame that shows it. -/
theorem session_frame (limits : Limits) (ops : List Session.Op) {cancelAt : Option Nat}
    {source : Bytes} {e : RunError}
    (h : ((Transcript.after limits ops).session.exec cancelAt source).2 = .error (.failed e))
    (hplace : e.position ≠ .none) :
    e.frame = codeFrame source e.position ∧
      ∃ origin ∈ source :: (Transcript.after limits ops).sources,
        e.FailsAt (Transcript.after limits ops).sources source (origin, e.position) ∧
        ∃ text, (Bytes.lines origin)[e.position.line - 1]? = some text ∧
          codeFrame origin e.position = frameOfLine e.position.line e.position.column text := by
  obtain ⟨script, failure, hparse, hrun, rfl⟩ := Session.failure_of_exec h
  obtain ⟨before, stmt, after, code, hss, hchain, hreported⟩ := exists_located_of_runScript hrun
  obtain ⟨origin, hfails⟩ :=
    exists_failsAt hparse hss (comeFrom_after limits ops) hchain hreported hplace
  obtain ⟨hmem, horigin, k, hk, hposition⟩ := hfails.exists_foothold
  refine ⟨rfl, origin, hmem, hfails, ?_⟩
  rw [show (failure.toError source).position = Position.ofOffset origin k from hposition]
  exact codeFrame_of_foothold horigin hk

/-- A source that defines a function. It cannot run, for its variable has no value. -/
def definesFailing : Bytes := Bytes.ofString "func f()\n    return x"

/-- A source that calls the function. -/
def callsFailing : Bytes := Bytes.ofString "a = f()"

theorem parse_definesFailing : parse definesFailing = .ok ⟨definesFailing,
    [.func [102] ⟨⟨1, 1⟩, [], [.ret ⟨2, 5⟩ (.var ⟨2, 12⟩ [120])]⟩]⟩ := by
  have hspells : Script.SpellsAt 0 [.func [102] ⟨0, [], [.ret 13 (.var 20 [120])]⟩]
      definesFailing := by
    have hret : (Clause.ret 13 (.var 20 [120])).SpellsAt 13 (Bytes.ofString "return x") :=
      ⟨rfl, _, ⟨rfl, rfl⟩, rfl⟩
    have hfunc : (Stmt.func [102] ⟨0, [], [.ret 13 (.var 20 [120])]⟩).SpellsAt 0 _ :=
      ⟨rfl, _, _, rfl, ⟨_, _, rfl, ⟨_, rfl, hret⟩, rfl⟩, rfl⟩
    refine ⟨_, _, ?_, hfunc, rfl⟩
    rfl
  have hname : ∀ b : UInt8, Bytes.isNameByte b = true → IsName [b] := fun b hb =>
    ⟨List.cons_ne_nil b [], List.forall_mem_singleton.2 hb⟩
  have hwf : Script.WellFormed [.func [102] ⟨0, [], [.ret 13 (.var 20 [120])]⟩] := by
    have hret : (Clause.ret 13 (.var 20 [120])).WellFormed := ⟨⟨hname 120 rfl, rfl, rfl⟩, by decide⟩
    exact ⟨List.cons_ne_nil _ _, List.forall_mem_singleton.2
      ⟨hname 102 rfl, fun _ h => absurd h List.not_mem_nil, List.forall_mem_singleton.2 hret⟩⟩
  unfold parse
  rw [parseMarked_complete hspells hwf]
  rfl

theorem parse_callsFailing : parse callsFailing = .ok ⟨callsFailing,
    [.clause (.assign ⟨1, 1⟩ [97] (.call ⟨1, 5⟩ [102] []))]⟩ :=
  rfl

/-- The session after the first of the two sources. -/
theorem after_definesFailing :
    Transcript.after .standard [.exec none definesFailing] =
      ⟨⟨.standard, ⟨.empty, Table.empty.insert [102]
        ⟨⟨1, 1⟩, [], [.ret ⟨2, 5⟩ (.var ⟨2, 12⟩ [120])]⟩⟩⟩, [definesFailing]⟩ := by
  have hrun : runSource ⟨.standard, none⟩ .empty definesFailing =
      .ok ⟨.empty, Table.empty.insert [102]
        ⟨⟨1, 1⟩, [], [.ret ⟨2, 5⟩ (.var ⟨2, 12⟩ [120])]⟩⟩ := by
    rw [runSource, parse_definesFailing]
    rfl
  simp only [Transcript.after, List.foldl_cons, List.foldl_nil, Transcript.apply, Session.exec,
    Session.new, hrun]
  rfl

/-- The line in question has a code frame in its source, and the error has none. -/
theorem session_frame_lost :
    let t := Transcript.after .standard [.exec none definesFailing]
    ∃ e, (t.session.exec none callsFailing).2 = .error (.failed e) ∧ e.position = ⟨2, 12⟩ ∧
      e.frame = [] ∧ ∃ origin ∈ callsFailing :: t.sources,
        e.FailsAt t.sources callsFailing (origin, ⟨2, 12⟩) ∧ codeFrame origin ⟨2, 12⟩ ≠ [] := by
  intro t
  obtain ⟨e, hexec, hposition⟩ : ∃ e, (t.session.exec none callsFailing).2 = .error (.failed e) ∧
      e.position = ⟨2, 12⟩ := by
    rw [show t = _ from after_definesFailing, Session.exec, runSource, parse_callsFailing]
    exact ⟨_, rfl, rfl⟩
  have hplace : e.position ≠ .none := by
    rw [hposition]
    decide
  obtain ⟨hframe, origin, hmem, hfails, text, -, horigin⟩ :=
    session_frame .standard [.exec none definesFailing] hexec hplace
  rw [hposition] at hframe hfails horigin
  have hlost : codeFrame callsFailing ⟨2, 12⟩ = [] := rfl
  refine ⟨e, hexec, hposition, hframe.trans hlost, origin, hmem, hfails, ?_⟩
  rw [horigin]
  exact List.cons_ne_nil _ _

end Scriptlet
