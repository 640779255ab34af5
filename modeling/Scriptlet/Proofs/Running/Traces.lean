import Scriptlet.Proofs.Running.Stops
import Scriptlet.Run.Engine

/-!
# Stack traces are call chains

A failure carries the calls that were open when it came about, and its position. A trace that is
made of them is of use to a reader only if it can be followed through the script: the position has
to be in the code that was running, the call of that code in the code from which it was called, and
so on outwards to the top level.

All of this is one relation between the open calls and the **code** that runs when they are open
(`Chain`). Opening a call goes one link further, from a call in the code that runs to the body of
the function called; nothing else changes the chain. Which functions there are is the same
throughout a statement of the top level, since definitions stand on the top level only: they are
those defined by the statements before. So an evaluation stops only for reasons that fit the chain
at which it runs (`Located`), and this is a matter of reasons that cover the expressions of a piece
of code, as elsewhere.
-/

namespace Scriptlet

/-! ### Code -/

/-- **Code that runs by itself**: the expressions that it evaluates, and the marks of its nodes. -/
structure Code where
  /-- The expressions that it evaluates. -/
  parts : List (Expr Position)
  /-- The marks of its nodes. -/
  marks : List Position
  /-- An expression is a node. -/
  mark_mem : ∀ e ∈ parts, e.mark ∈ marks

theorem Clause.mark_mem_marks {c : Clause Position} {e : Expr Position} (h : e ∈ c.parts) :
    e.mark ∈ c.marks :=
  List.mem_cons_of_mem _ (List.mem_map_of_mem h)

theorem Clause.mark_mem_flatMap {body : List (Clause Position)} {e : Expr Position}
    (h : e ∈ body.flatMap Clause.parts) : e.mark ∈ body.flatMap Clause.marks := by
  obtain ⟨c, hc, he⟩ := List.mem_flatMap.1 h
  exact List.mem_flatMap.2 ⟨c, hc, mark_mem_marks he⟩

/-- The mark of a part of a statement is one of its marks. -/
theorem Stmt.mark_mem_marks {s : Stmt Position} {e : Expr Position} (h : e ∈ s.parts) :
    e.mark ∈ s.marks := by
  cases s with
  | clause c => exact Clause.mark_mem_marks h
  | func name f => cases h
  | cond mark condition body | loop mark condition body =>
    refine List.mem_cons_of_mem _ ?_
    rcases List.mem_append.1 h with h | h
    · exact List.mem_append_left _ (List.mem_map_of_mem h)
    · exact List.mem_append_right _ (Clause.mark_mem_flatMap h)

/-- The code of a function: its body. -/
def Func.code (f : Func Position) : Code :=
  ⟨f.body.flatMap Clause.parts, f.body.flatMap Clause.marks, fun _ => Clause.mark_mem_flatMap⟩

/-- The code of the top level that a statement is. A definition is none. -/
def Stmt.code : Stmt Position → Code
  | .func _ _ => ⟨[], [], fun _ h => absurd h List.not_mem_nil⟩
  | s => ⟨s.parts, s.marks, fun _ => Stmt.mark_mem_marks⟩

theorem Stmt.parts_code (s : Stmt Position) : s.code.parts = s.parts := by
  cases s <;> rfl

theorem Stmt.mark_mem_code {s : Stmt Position} {c : Clause Position} (h : c ∈ s.clauses) :
    c.mark ∈ s.code.marks := by
  cases s with
  | clause c' =>
    obtain rfl := List.mem_singleton.1 h
    exact List.mem_cons_self
  | func name f => cases h
  | cond mark condition body | loop mark condition body =>
    exact List.mem_cons_of_mem _ (List.mem_append_right _
      (List.mem_flatMap.2 ⟨c, h, List.mem_cons_self⟩))

/-! ### Chains -/

section Chains

variable {known : Table (Func Position)} {stmt : Stmt Position} {frames : List Frame} {code : Code}

/-- **The chain of open calls**, while a statement of the top level runs and certain functions are
known: which code runs when these calls are open. -/
inductive Chain (known : Table (Func Position)) (stmt : Stmt Position) :
    List Frame → Code → Prop where
  /-- When no call is open, the statement runs. -/
  | top : Chain known stmt [] stmt.code
  /-- A call in the code that runs leads to the body of the function called. -/
  | call {frames : List Frame} {code : Code} {site : Position} {name : Bytes}
    {args : List (Expr Position)} {f : Func Position} : Chain known stmt frames code →
    .call site name args ∈ code.parts → known.get? name = some f →
    Chain known stmt (⟨name, site⟩ :: frames) f.code

/-- A fault that is reported at a node of the code that runs: any but a function that does not
return, and too many steps. -/
structure Fault.AtNode (fault : Fault) : Prop where
  ne_noReturn : ∀ name, fault ≠ .noReturn name
  ne_tooManySteps : ∀ quota, fault ≠ .tooManySteps quota

theorem Fault.atNode_tooDeep (depth : Nat) : (tooDeep depth).AtNode :=
  ⟨by simp, by simp⟩

theorem Fault.atNode_returnOutside : returnOutside.AtNode :=
  ⟨by simp, by simp⟩

/-- What an expression fails with is reported at a node. -/
theorem Expr.Faults.atNode {e : Expr Position} {fault : Fault} (h : e.Faults known fault) :
    fault.AtNode := by
  rcases h.ofValues_or_site with hvalues | ⟨c, -, -, hfault⟩
  · constructor
    · rintro name rfl
      exact hvalues.structural rfl
    · rintro quota rfl
      exact hvalues.limit rfl
  · obtain ⟨hcallee, -⟩ := CallSite.callee?_of_fault? hfault
    constructor
    · rintro name rfl
      cases hcallee
    · rintro quota rfl
      cases hcallee

/-- **Where a failure is reported** while a piece of code runs. -/
inductive Reported (known : Table (Func Position)) (code : Code) : Failure → Prop where
  /-- As a rule, at a node of that code. -/
  | node {fault : Fault} {position : Position} {calls : List Frame} : fault.AtNode →
    position ∈ code.marks → Reported known code ⟨fault, position, calls⟩
  /-- A function that does not return, at its definition. -/
  | noReturn {name : Bytes} {site : Position} {calls : List Frame} {f : Func Position} :
    known.get? name = some f → Reported known code ⟨.noReturn name, f.mark, ⟨name, site⟩ :: calls⟩
  /-- Too many steps, nowhere. -/
  | tooManySteps {quota : Nat} {calls : List Frame} :
    Reported known code ⟨.tooManySteps quota, .none, calls⟩

/-- **Reasons to stop that fit the chain** of the calls that are open. -/
def Located (known : Table (Func Position)) (stmt : Stmt Position) : Stop → Prop
  | .failed failure => ∃ code, Chain known stmt failure.calls code ∧ Reported known code failure
  | .cancelled | .unfinished => True

variable {ctx : Context} (hchain : Chain known stmt ctx.calls code)

include hchain

/-- At a chain, what fits it covers the code that runs, if it covers the calls. -/
theorem Chain.covers {caller : Caller}
    (hcalls : ∀ site name args, .call site name args ∈ code.parts → ∀ f vs,
      ctx.functions.get? name = some f → StopsFor (Located known stmt) (caller name site f vs)) :
    Covers (Located known stmt) caller ctx code.parts := by
  refine ⟨fun m s n hstop => ?_, fun e he fault hfault => ?_, hcalls⟩
  · dsimp only [Context.step] at hstop
    split at hstop
    · split at hstop
      · cases hstop
        trivial
      · cases hstop
    · cases hstop
      exact ⟨code, hchain, .tooManySteps⟩
  · exact ⟨code, hchain, .node hfault.atNode (code.mark_mem e he)⟩

/-- **A call stops only for reasons that fit the chain**, by induction on how many calls may still
be opened. What a body knows is known outside of it too. -/
theorem Chain.stopsFor_call {d : Nat} {site : Position} {name : Bytes}
    {args : List (Expr Position)} {f : Func Position}
    (hknown : ∀ g h, ctx.functions.get? g = some h → known.get? g = some h)
    (hsite : .call site name args ∈ code.parts) (hf : known.get? name = some f) (vs : List Value) :
    StopsFor (Located known stmt) (Scriptlet.call d ctx name site f vs) := by
  induction d generalizing ctx code site name args f vs with
  | zero =>
    rw [Scriptlet.call]
    exact .fail ⟨code, hchain, .node (Fault.atNode_tooDeep _) (code.mark_mem _ hsite)⟩
  | succ d ih =>
    have hinside : Chain known stmt (ctx.enter name site).calls f.code := .call hchain hsite hf
    -- isolated or not, a body finds no function that is not known outside
    have hinner : ∀ g h, (ctx.enter name site).functions.get? g = some h →
        known.get? g = some h := by
      intro g h hg
      simp only [Context.enter] at hg
      split at hg
      · cases hg
      · exact hknown g h hg
    have hbody : Covers (Located known stmt) (Scriptlet.call d (ctx.enter name site))
        (ctx.enter name site) f.code.parts :=
      hinside.covers fun site' name' args' hsite' g ws hg =>
        ih hinside hinner hsite' (hinner name' g hg) ws
    rw [Scriptlet.call]
    refine (StopsFor.noteCall _).bind fun _ =>
      (hbody.runBody fun hempty => absurd hempty (List.cons_ne_nil _ _)).bind fun r => ?_
    rcases r with ⟨vars, _ | v⟩
    · exact .fail ⟨f.code, hinside, .noReturn hf⟩
    · exact .pure v

end Chains

/-! ### Runs -/

/-- **A statement of the top level stops only for reasons that fit the chain** of its calls. -/
theorem located_of_runStatement {settings : Settings} {w : World} {stmt : Stmt Position}
    {m n : Meter} {s : Stop} (h : runStatement loop settings w stmt m = .stopped s n) :
    Located w.functions stmt s := by
  have htop : Chain w.functions stmt (settings.context w).calls stmt.code := .top
  have hcovers : Covers (Located w.functions stmt) (settings.context w).caller
      (settings.context w) stmt.code.parts :=
    htop.covers fun site name args hsite f vs hf =>
      htop.stopsFor_call (fun _ _ hg => hg) hsite hf vs
  rw [Stmt.parts_code] at hcovers
  refine hcovers.runStatement (fun mark value hret => ?_) trivial m s n h
  exact ⟨stmt.code, .top, .node Fault.atNode_returnOutside (Stmt.mark_mem_code hret)⟩

/-- A run that fails does so in one of its statements. The calls that are open then make a chain
from it, among the functions that were there and those that the statements before it define. -/
theorem exists_located_of_runScript {settings : Settings} {w : World} {script : Script}
    {failure : Failure} (h : (runScript settings w script).result = .error (.failed failure)) :
    ∃ before stmt after code, script.statements = before ++ stmt :: after ∧
      Chain (before.foldl Stmt.define w.functions) stmt failure.calls code ∧
      Reported (before.foldl Stmt.define w.functions) code failure := by
  unfold runScript at h
  split at h
  · cases h
  · rename_i s n hrun
    cases h
    obtain ⟨before, stmt, after, w', m', hss, hbefore, hstmt⟩ :=
      exists_of_runStatements_stopped hrun
    obtain ⟨code, hchain, hreported⟩ := located_of_runStatement hstmt
    rw [functions_of_runStatements hbefore] at hchain hreported
    exact ⟨before, stmt, after, code, hss, hchain, hreported⟩

/-! ### Traces -/

/-- **The code of a script** that runs in a function, which may have several definitions, or on the
top level. -/
def Script.HasCode (script : Script) (code : Code) : (caller : Option Frame) → Prop
  | some call => ∃ f, .func call.function f ∈ script.statements ∧ code = f.code
  | none => ∃ s ∈ script.statements, code = s.code

theorem Chain.hasCode {script : Script} {known : Table (Func Position)} {stmt : Stmt Position}
    {frames : List Frame} {code : Code} (hchain : Chain known stmt frames code)
    (hknown : ∀ name f, known.get? name = some f → .func name f ∈ script.statements)
    (hstmt : stmt ∈ script.statements) : script.HasCode code frames[0]? := by
  cases hchain with
  | top => exact ⟨stmt, hstmt, rfl⟩
  | call _ _ hf => exact ⟨_, hknown _ _ hf, rfl⟩

/-- Every call of a chain is one in the code that is called by the next. -/
theorem Chain.exists_site {script : Script} {known : Table (Func Position)} {stmt : Stmt Position}
    {frames : List Frame} {code : Code} (hchain : Chain known stmt frames code)
    (hknown : ∀ name f, known.get? name = some f → .func name f ∈ script.statements)
    (hstmt : stmt ∈ script.statements) {i : Nat} {call : Frame} (hcall : frames[i]? = some call) :
    ∃ code args, script.HasCode code frames[i + 1]? ∧
      .call call.position call.function args ∈ code.parts := by
  induction hchain generalizing i with
  | top => cases hcall
  | @call frames code site name args f hchain hsite _ ih =>
    cases i with
    | zero =>
      cases hcall
      exact ⟨code, args, hchain.hasCode hknown hstmt, hsite⟩
    | succ i => exact ih hcall

theorem Failure.getElem?_trace_succ (failure : Failure) (i : Nat) :
    failure.trace[i + 1]? = failure.calls[i]? := by
  rw [trace]
  cases failure.calls <;> rfl

/-- **Stack traces are call chains.** When a run fails, its trace is one frame for the script
itself if no call is open. Otherwise its first two frames are of one function, the first with the
position of the failure. Each frame after the first is the position of a call of its function,
which stands in a function of the script with the name in the next frame, or, for the last frame,
on the top level.

The position of the failure is that of a node in the code that was running, or of the definition of
the function that did not return; but it is no position at all if there were too many steps. -/
theorem trace_is_call_chain {settings : Settings} {script : Script} {failure : Failure}
    (h : (runScript settings .empty script).result = .error (.failed failure)) :
    let e := failure.toError script.source
    (failure.calls = [] → e.trace = [⟨scriptName, e.position⟩]) ∧
    (failure.calls ≠ [] → ∃ name site outer,
      e.trace = ⟨name, e.position⟩ :: ⟨name, site⟩ :: outer) ∧
    (∀ i call, e.trace[i + 1]? = some call → ∃ code args,
      script.HasCode code e.trace[i + 2]? ∧
        .call call.position call.function args ∈ code.parts) ∧
    ((∃ quota, failure.fault = .tooManySteps quota ∧ e.position = .none) ∨
      (∃ name f, failure.fault = .noReturn name ∧ .func name f ∈ script.statements ∧
        e.position = f.mark ∧ e.trace[0]? = some ⟨name, f.mark⟩) ∨
      failure.fault.AtNode ∧ ∃ code, script.HasCode code e.trace[1]? ∧
        e.position ∈ code.marks) := by
  intro e
  obtain ⟨before, stmt, after, code, hss, hchain, hreported⟩ := exists_located_of_runScript h
  have hknown : ∀ name f, (before.foldl Stmt.define World.empty.functions).get? name = some f →
      .func name f ∈ script.statements := by
    intro name f hf
    rcases get?_foldl_define hf with hf | hf
    · cases hf
    · exact hss ▸ List.mem_append_left _ hf
  have hstmt : stmt ∈ script.statements :=
    hss ▸ List.mem_append_right _ List.mem_cons_self
  have htrace : e.trace = failure.trace := rfl
  -- behind the first frame the trace is the list of open calls
  have hsucc (i : Nat) : e.trace[i + 1]? = failure.calls[i]? := failure.getElem?_trace_succ i
  refine ⟨fun hempty => ?_, fun hopen => ?_, fun i call hcall => ?_, ?_⟩
  · rw [htrace, Failure.trace, hempty]
    rfl
  · obtain ⟨call, outer, hcalls⟩ := List.exists_cons_of_ne_nil hopen
    refine ⟨call.function, call.position, outer, ?_⟩
    rw [htrace, Failure.trace, hcalls]
    rfl
  · rw [hsucc] at hcall ⊢
    exact hchain.exists_site hknown hstmt hcall
  · cases hreported with
    | node hnode hposition =>
      refine .inr (.inr ⟨hnode, code, ?_, hposition⟩)
      rw [hsucc]
      exact hchain.hasCode hknown hstmt
    | noReturn hf => exact .inr (.inl ⟨_, _, rfl, hknown _ _ hf, rfl, rfl⟩)
    | tooManySteps => exact .inl ⟨_, rfl, rfl⟩

/-- A script in which `f` calls `g`, and `g` has no return. -/
def calleeWithoutReturn : Script :=
  ⟨[], [.func [103] ⟨⟨1, 1⟩, [[120]], [.assign ⟨2, 5⟩ [121] (.var ⟨2, 9⟩ [120])]⟩,
    .func [102] ⟨⟨3, 1⟩, [],
      [.ret ⟨4, 5⟩ (.array ⟨4, 12⟩ [.call ⟨4, 13⟩ [103] [.bool ⟨4, 15⟩ true]])]⟩,
    .clause (.assign ⟨5, 1⟩ [97] (.call ⟨5, 5⟩ [102] []))]⟩

/-- It fails at the definition of `g`, which is called in `f`, which is called on the top level. -/
theorem trace_is_call_chain_calleeWithoutReturn :
    ∃ failure,
      (runScript ⟨.standard, none⟩ .empty calleeWithoutReturn).result = .error (.failed failure) ∧
      failure.trace = [⟨[103], ⟨1, 1⟩⟩, ⟨[103], ⟨4, 13⟩⟩, ⟨[102], ⟨5, 5⟩⟩] ∧
      (∃ code args, calleeWithoutReturn.HasCode code (some ⟨[102], ⟨5, 5⟩⟩) ∧
        .call ⟨4, 13⟩ [103] args ∈ code.parts) ∧
      ∃ code args, calleeWithoutReturn.HasCode code none ∧
        .call ⟨5, 5⟩ [102] args ∈ code.parts := by
  have hrun : (runScript ⟨.standard, none⟩ .empty calleeWithoutReturn).result =
      .error (.failed ⟨.noReturn [103], ⟨1, 1⟩, [⟨[103], ⟨4, 13⟩⟩, ⟨[102], ⟨5, 5⟩⟩]⟩) := rfl
  obtain ⟨-, -, hsites, -⟩ := trace_is_call_chain hrun
  exact ⟨_, hrun, rfl, hsites 0 _ rfl, hsites 1 _ rfl⟩

end Scriptlet
