import Scriptlet.Proofs.Running.Basic
import Scriptlet.Proofs.Running.Operations
import Scriptlet.Proofs.Tree

/-!
# Runs follow the definition of the language

Without a quota and without an interruption, running a script gives what the rules of the language
say, and goes on for good exactly when the rules say nothing.

Both halves of this are proved together. An evaluation **computes** a judgement
(`Computes`) when every answer that the judgement allows is the answer of the evaluation, from any
meter, and when the judgement does allow one unless the evaluation never ends. That
is enough for an equivalence, since an evaluation has one answer. It is also closed under what
evaluations are made of: one evaluation after another computes one judgement and then another
(`Then`), where an error of the first is the error of both. So what is left to do for each construct
is to read its rules as such a composition; these are the lemmas `evaluated_binary_iff` and the
like.
-/

namespace Scriptlet

variable {α β : Type}

/-! ### Answers -/

/-- What an outcome says once the meter and the open calls are left out. -/
def Outcome.answer? : Outcome α → Option (Except ErrorReport α)
  | .done a _ => some (.ok a)
  | .stopped (.failed f) _ => some (.error ⟨f.fault.kind, f.fault.message, f.position⟩)
  | .stopped .cancelled _ | .stopped .unfinished _ => none

theorem exists_done_of_answer? {o : Outcome α} {a : α} (h : o.answer? = some (.ok a)) :
    ∃ n, o = .done a n := by
  rcases o with ⟨a', n⟩ | ⟨_ | _ | _, n⟩
  · cases h
    exact ⟨n, rfl⟩
  all_goals cases h

/-- An outcome that says an error has failed with it; interruptions and runs without end say
nothing. -/
theorem exists_failed_of_answer? {o : Outcome α} {err : ErrorReport}
    (h : o.answer? = some (.error err)) :
    ∃ f n, o = .stopped (.failed f) n ∧ err = ⟨f.fault.kind, f.fault.message, f.position⟩ := by
  rcases o with ⟨a, n⟩ | ⟨f | _ | _, n⟩
  · cases h
  · cases h
    exact ⟨f, n, rfl, rfl⟩
  all_goals cases h

/-- **An evaluation computes a judgement**: what the judgement allows is the answer of the
evaluation, and the judgement allows something unless the evaluation never ends. -/
structure Computes (x : Eval α) (D : Except ErrorReport α → Prop) : Prop where
  answers : ∀ {r}, D r → ∀ m, (x m).answer? = some r
  total : (∃ r, D r) ∨ ∀ m, ∃ n, x m = .stopped .unfinished n

/-- One judgement and then another that depends on its result; an error of the first is the error
of both. -/
def Then (D : Except ErrorReport α → Prop) (K : α → Except ErrorReport β → Prop)
    (r : Except ErrorReport β) : Prop :=
  (∃ a, D (.ok a) ∧ K a r) ∨ ∃ err, D (.error err) ∧ r = .error err

namespace Computes

variable {x : Eval α} {D D' : Except ErrorReport α → Prop}

/-- What is computed depends on what the judgement allows and on nothing else. -/
theorem congr (h : Computes x D) (hD : ∀ r, D' r ↔ D r) : Computes x D' where
  answers hr := h.answers ((hD _).1 hr)
  total := h.total.imp_left fun ⟨r, hr⟩ => ⟨r, (hD r).2 hr⟩

/-- A judgement that allows one answer, which is that of the evaluation. -/
theorem of_eq {r₀ : Except ErrorReport α} (h : Computes x (· = r₀)) (hr₀ : D r₀)
    (honly : ∀ r, D r → r = r₀) : Computes x D :=
  h.congr fun r => ⟨honly r, fun hr => hr ▸ hr₀⟩

/-- From every meter, an evaluation that computes a judgement has an answer that the judgement
allows, or never ends. -/
theorem cases (h : Computes x D) (m : Meter) :
    (∃ r, D r ∧ (x m).answer? = some r) ∨ ∃ n, x m = .stopped .unfinished n := by
  rcases h.total with ⟨r, hr⟩ | hnever
  · exact Or.inl ⟨r, hr, h.answers hr m⟩
  · exact Or.inr (hnever m)

/-- An evaluation that computes a judgement answers exactly what the judgement allows. -/
theorem iff_answer (h : Computes x D) (m : Meter) {r : Except ErrorReport α} :
    (x m).answer? = some r ↔ D r := by
  refine ⟨fun hr => ?_, fun hr => h.answers hr m⟩
  rcases h.cases m with ⟨r', hr', ha⟩ | ⟨n, hn⟩
  · rw [ha] at hr
    exact Option.some.inj hr ▸ hr'
  · rw [hn] at hr
    cases hr

/-- A value at hand computes the judgement that allows just it. -/
protected theorem pure (a : α) : Computes (Eval.pure a) (· = .ok a) where
  answers := by
    rintro r rfl m
    rfl
  total := Or.inl ⟨_, rfl⟩

protected theorem fail (ctx : Context) (fault : Fault) (p : Position) :
    Computes (ctx.fail fault p : Eval α) (· = .error ⟨fault.kind, fault.message, p⟩) where
  answers := by
    rintro r rfl m
    rfl
  total := Or.inl ⟨_, rfl⟩

/-- **One evaluation after another computes one judgement after another.** -/
protected theorem bind {f : α → Eval β} {K : α → Except ErrorReport β → Prop} (hx : Computes x D)
    (hf : ∀ a, Computes (f a) (K a)) : Computes (x >>= f) (Then D K) where
  answers := by
    rintro r (⟨a, ha, hr⟩ | ⟨err, herr, rfl⟩) m
    · obtain ⟨n, hn⟩ := exists_done_of_answer? (hx.answers ha m)
      rw [Eval.bind_of_done hn]
      exact (hf a).answers hr n
    · obtain ⟨f', n, hn, rfl⟩ := exists_failed_of_answer? (hx.answers herr m)
      rw [Eval.bind_of_stopped hn]
      rfl
  total := by
    rcases hx.total with ⟨err | a, hr⟩ | hnever
    · exact Or.inl ⟨_, Or.inr ⟨err, hr, rfl⟩⟩
    · -- the first has a result, so it is up to the second
      rcases (hf a).total with ⟨r', hr'⟩ | hnever
      · exact Or.inl ⟨r', Or.inl ⟨a, hr, hr'⟩⟩
      · refine Or.inr fun m => ?_
        obtain ⟨n, hn⟩ := exists_done_of_answer? (hx.answers hr m)
        rw [Eval.bind_of_done hn]
        exact hnever n
    · refine Or.inr fun m => ?_
      obtain ⟨n, hn⟩ := hnever m
      exact ⟨n, Eval.bind_of_stopped hn f⟩

/-- What only changes the meter may come first. -/
theorem after {u : Eval Unit} (hu : ∀ m, ∃ n, u m = .done () n) (hx : Computes x D) :
    Computes (u >>= fun _ => x) D where
  answers hr m := by
    obtain ⟨n, hn⟩ := hu m
    rw [Eval.bind_of_done hn]
    exact hx.answers hr n
  total := by
    refine hx.total.imp_right fun hnever m => ?_
    obtain ⟨n, hn⟩ := hu m
    rw [Eval.bind_of_done hn]
    exact hnever n

/-- Without a quota a step changes nothing about what is computed. -/
theorem step {ctx : Context} (hfree : ctx.Free) (hx : Computes x D) :
    Computes (ctx.step >>= fun _ => x) D :=
  hx.after fun m => ⟨_, hfree.step_eq m⟩

/-- An operation computes its own result, with the position of the failure. -/
theorem lift (ctx : Context) (mark : Position) (o : Except Fault Value) :
    Computes (ctx.lift mark o) (· = reportAt mark o) := by
  cases o with
  | ok v => exact .pure v
  | error fault => exact .fail ctx fault mark

end Computes

/-! ### The rules for expressions as compositions -/

section Rules

variable {limit : Nat} {isolated : Bool} {fs : Table (Func Position)} {k : Nat} {vars : Bindings}
  {mark : Position}

/-- **Expressions are evaluated from left to right**: the rules for lists read as the first of them
and then the others. -/
theorem evaluatedAll_cons_iff {e : Expr Position} {es : List (Expr Position)}
    {r : Except ErrorReport (List Value)} :
    EvaluatedAll limit isolated fs k vars (e :: es) r ↔
      Then (Evaluated limit isolated fs k vars e) (fun v =>
        Then (EvaluatedAll limit isolated fs k vars es) fun vs => (· = .ok (v :: vs))) r := by
  constructor
  · intro h
    cases h with
    | cons he hes => exact Or.inl ⟨_, he, Or.inl ⟨_, hes, rfl⟩⟩
    | head he => exact Or.inr ⟨_, he, rfl⟩
    | tail he hes => exact Or.inl ⟨_, he, Or.inr ⟨_, hes, rfl⟩⟩
  · rintro (⟨v, he, ⟨vs, hes, rfl⟩ | ⟨err, hes, rfl⟩⟩ | ⟨err, he, rfl⟩)
    · exact .cons he hes
    · exact .tail he hes
    · exact .head he

theorem evaluated_array_iff {es : List (Expr Position)} {r : Except ErrorReport Value} :
    Evaluated limit isolated fs k vars (.array mark es) r ↔
      Then (EvaluatedAll limit isolated fs k vars es) (fun vs => (· = .ok (.array vs))) r := by
  constructor
  · intro h
    cases h with
    | array hes => exact Or.inl ⟨_, hes, rfl⟩
    | arrayElement hes => exact Or.inr ⟨_, hes, rfl⟩
  · rintro (⟨vs, hes, rfl⟩ | ⟨err, hes, rfl⟩)
    · exact .array hes
    · exact .arrayElement hes

/-- **Both operands are evaluated**, the left one first, before the operator combines their values.
That goes for `and` and `or` as well. -/
theorem evaluated_binary_iff {op : Operator} {left right : Expr Position}
    {r : Except ErrorReport Value} :
    Evaluated limit isolated fs k vars (.binary mark op left right) r ↔
      Then (Evaluated limit isolated fs k vars left) (fun v =>
        Then (Evaluated limit isolated fs k vars right) fun w => Combined mark op v w) r := by
  constructor
  · intro h
    cases h with
    | binary hl hr hc => exact Or.inl ⟨_, hl, Or.inl ⟨_, hr, hc⟩⟩
    | binaryLeft hl => exact Or.inr ⟨_, hl, rfl⟩
    | binaryRight hl hr => exact Or.inl ⟨_, hl, Or.inr ⟨_, hr, rfl⟩⟩
  · rintro (⟨v, hl, ⟨w, hr, hc⟩ | ⟨err, hr, rfl⟩⟩ | ⟨err, hl, rfl⟩)
    · exact .binary hl hr hc
    · exact .binaryRight hl hr
    · exact .binaryLeft hl

/-- **A call of a function that is there**, with as many arguments as it takes, evaluates them and
then calls the function with their values. -/
theorem evaluated_call_iff {name : Bytes} {args : List (Expr Position)} {f : Func Position}
    (hf : fs.get? name = some f) (hargs : args.length = f.params.length)
    {r : Except ErrorReport Value} :
    Evaluated limit isolated fs k vars (.call mark name args) r ↔
      Then (EvaluatedAll limit isolated fs k vars args) (fun vs =>
        Called limit isolated fs k name mark f vs) r := by
  constructor
  · intro h
    cases h with
    | callUndefined hnone =>
      rw [hnone] at hf
      cases hf
    | callArity hf' hne =>
      rw [hf'] at hf
      cases hf
      exact absurd hargs hne
    | callArgument hf' _ herr => exact Or.inr ⟨_, herr, rfl⟩
    | call hf' _ hvs hcalled =>
      rw [hf'] at hf
      cases hf
      exact Or.inl ⟨_, hvs, hcalled⟩
  · rintro (⟨vs, hvs, hcalled⟩ | ⟨err, herr, rfl⟩)
    · exact .call hf hargs hvs hcalled
    · exact .callArgument hf hargs herr

/-- Indexing evaluates the object before the place; a fault names the one or the other. -/
theorem evaluated_index_iff {object place : Expr Position} {r : Except ErrorReport Value} :
    Evaluated limit isolated fs k vars (.index mark object place) r ↔
      Then (Evaluated limit isolated fs k vars object) (fun v =>
        Then (Evaluated limit isolated fs k vars place) fun w =>
          Indexed object.mark place.mark v w) r := by
  constructor
  · intro h
    cases h with
    | index ho hp hi => exact Or.inl ⟨_, ho, Or.inl ⟨_, hp, hi⟩⟩
    | indexObject ho => exact Or.inr ⟨_, ho, rfl⟩
    | indexPlace ho hp => exact Or.inl ⟨_, ho, Or.inr ⟨_, hp, rfl⟩⟩
  · rintro (⟨v, ho, ⟨w, hp, hi⟩ | ⟨err, hp, rfl⟩⟩ | ⟨err, ho, rfl⟩)
    · exact .index ho hp hi
    · exact .indexPlace ho hp
    · exact .indexObject ho

/-- A member is read off the value of its object. -/
theorem evaluated_member_iff {object : Expr Position} {property : Bytes}
    {r : Except ErrorReport Value} :
    Evaluated limit isolated fs k vars (.member mark object property) r ↔
      Then (Evaluated limit isolated fs k vars object) (fun v => MemberOf mark v property) r := by
  constructor
  · intro h
    cases h with
    | member ho hm => exact Or.inl ⟨_, ho, hm⟩
    | memberObject ho => exact Or.inr ⟨_, ho, rfl⟩
  · rintro (⟨v, ho, hm⟩ | ⟨err, ho, rfl⟩)
    · exact .member ho hm
    · exact .memberObject ho

/-- A method has its object evaluated before its arguments. -/
theorem evaluated_method_iff {object : Expr Position} {name : Bytes} {args : List (Expr Position)}
    {r : Except ErrorReport Value} :
    Evaluated limit isolated fs k vars (.method mark object name args) r ↔
      Then (Evaluated limit isolated fs k vars object) (fun v =>
        Then (EvaluatedAll limit isolated fs k vars args) fun ws => MethodOf mark v name ws) r := by
  constructor
  · intro h
    cases h with
    | method ho hws hm => exact Or.inl ⟨_, ho, Or.inl ⟨_, hws, hm⟩⟩
    | methodObject ho => exact Or.inr ⟨_, ho, rfl⟩
    | methodArgument ho hws => exact Or.inl ⟨_, ho, Or.inr ⟨_, hws, rfl⟩⟩
  · rintro (⟨v, ho, ⟨ws, hws, hm⟩ | ⟨err, hws, rfl⟩⟩ | ⟨err, ho, rfl⟩)
    · exact .method ho hws hm
    · exact .methodArgument ho hws
    · exact .methodObject ho

theorem executed_nil_iff {r : Except ErrorReport (Bindings × Option Value)} :
    Executed limit isolated fs k vars [] r ↔ r = .ok (vars, none) := by
  constructor
  · intro h
    cases h
    rfl
  · rintro rfl
    exact .nil

/-- After an assignment in a body the rest runs with the new variable. -/
theorem executed_assign_iff {name : Bytes} {e : Expr Position} {cs : List (Clause Position)}
    {r : Except ErrorReport (Bindings × Option Value)} :
    Executed limit isolated fs k vars (.assign mark name e :: cs) r ↔
      Then (Evaluated limit isolated fs k vars e) (fun v =>
        Executed limit isolated fs k (vars.insert name v) cs) r := by
  constructor
  · intro h
    cases h with
    | assign he hcs => exact Or.inl ⟨_, he, hcs⟩
    | assignValue he => exact Or.inr ⟨_, he, rfl⟩
  · rintro (⟨v, he, hcs⟩ | ⟨err, he, rfl⟩)
    · exact .assign he hcs
    · exact .assignValue he

/-- After a return the rest of a body does not run. The rules ask for a call around it, which `hk`
says. -/
theorem executed_ret_iff (hk : 0 < k) {e : Expr Position} {cs : List (Clause Position)}
    {r : Except ErrorReport (Bindings × Option Value)} :
    Executed limit isolated fs k vars (.ret mark e :: cs) r ↔
      Then (Evaluated limit isolated fs k vars e) (fun v => (· = .ok (vars, some v))) r := by
  constructor
  · intro h
    cases h with
    | ret _ he => exact Or.inl ⟨_, he, rfl⟩
    | retValue _ he => exact Or.inr ⟨_, he, rfl⟩
    | retOutside => exact absurd hk (Nat.lt_irrefl 0)
  · rintro (⟨v, he, rfl⟩ | ⟨err, he, rfl⟩)
    · exact .ret hk he
    · exact .retValue hk he

/-- What a call makes of what its body returned. -/
def Returns (name : Bytes) (f : Func Position) (p : Bindings × Option Value)
    (r : Except ErrorReport Value) : Prop :=
  match p.2 with
  | some v => r = .ok v
  | none => r = .error ⟨.structural, Fault.message (.noReturn name), f.mark⟩

/-- **A called function runs its body** with its parameters bound to the arguments and nothing else.
It knows the functions of the caller, unless calls are isolated. -/
theorem called_iff (hk : k < limit) {name : Bytes} {f : Func Position} {vs : List Value}
    {r : Except ErrorReport Value} :
    Called limit isolated fs k name mark f vs r ↔
      Then (Executed limit isolated (if isolated then .empty else fs) (k + 1)
        (Table.empty.insertAll (f.params.zip vs)) f.body) (Returns name f) r := by
  constructor
  · intro h
    cases h with
    | tooDeep hle => exact absurd hk (Nat.not_lt.2 hle)
    | returned _ hb => exact Or.inl ⟨_, hb, rfl⟩
    | noReturn _ hb => exact Or.inl ⟨_, hb, rfl⟩
    | failed _ hb => exact Or.inr ⟨_, hb, rfl⟩
  · rintro (⟨⟨vars, _ | v⟩, hb, hr⟩ | ⟨err, hb, rfl⟩)
    · obtain rfl : r = _ := hr
      exact .noReturn hk hb
    · obtain rfl : r = .ok v := hr
      exact .returned hk hb
    · exact .failed hk hb

end Rules

/-! ### Evaluating expressions -/

section Expressions

variable {limit : Nat} {isolated : Bool} {ctx : Context} {caller : Caller}

/-- When each of some expressions is computed, their list is. -/
theorem computes_evaluateList {vars : Bindings} {es : List (Expr Position)}
    (h : ∀ e ∈ es, Computes (evaluate caller ctx vars e)
      (Evaluated limit isolated ctx.functions ctx.calls.length vars e)) :
    Computes (evaluateList caller ctx vars es)
      (EvaluatedAll limit isolated ctx.functions ctx.calls.length vars es) := by
  induction es with
  | nil =>
    refine (Computes.pure []).of_eq .nil fun r h => ?_
    cases h
    rfl
  | cons e es ih =>
    have hes := ih fun e' he' => h e' (List.mem_cons_of_mem e he')
    exact ((h e List.mem_cons_self).bind fun v => hes.bind fun vs => .pure (v :: vs)).congr
      fun r => evaluatedAll_cons_iff

/-- **Evaluating an expression follows its rules**, as soon as making calls does. -/
theorem computes_evaluate (hfree : ctx.Free)
    (hcaller : ∀ name site f vs, Computes (caller name site f vs)
      (Called limit isolated ctx.functions ctx.calls.length name site f vs))
    (vars : Bindings) (e : Expr Position) :
    Computes (evaluate caller ctx vars e)
      (Evaluated limit isolated ctx.functions ctx.calls.length vars e) := by
  induction e with
  | var mark name =>
    rw [evaluate]
    refine Computes.step hfree ?_
    rcases hget : vars.get? name with _ | v
    · refine (Computes.fail ctx _ mark).of_eq (.varUndefined hget) fun r h => ?_
      cases h with
      | var hv =>
        rw [hget] at hv
        cases hv
      | varUndefined => rfl
    · refine (Computes.pure v).of_eq (.var hget) fun r h => ?_
      cases h with
      | var hv =>
        rw [hget] at hv
        cases hv
        rfl
      | varUndefined hnone =>
        rw [hget] at hnone
        cases hnone
  | bool mark b =>
    refine Computes.step hfree ((Computes.pure _).of_eq .bool fun r h => ?_)
    cases h
    rfl
  | number mark x =>
    refine Computes.step hfree ((Computes.pure _).of_eq .number fun r h => ?_)
    cases h
    rfl
  | text mark s =>
    refine Computes.step hfree ((Computes.pure _).of_eq .text fun r h => ?_)
    cases h
    rfl
  | array mark es ih =>
    rw [evaluate]
    refine Computes.step hfree ?_
    exact ((computes_evaluateList ih).bind fun vs => .pure (Value.array vs)).congr
      fun r => evaluated_array_iff
  | binary mark op left right ihl ihr =>
    rw [evaluate]
    refine Computes.step hfree ?_
    refine (ihl.bind fun v => ihr.bind fun w => ?_).congr fun r => evaluated_binary_iff
    exact (Computes.lift ctx mark _).congr fun r => combined_iff
  | call mark name args ih =>
    rw [evaluate]
    refine Computes.step hfree ?_
    -- the function is looked up and the arguments are counted before anything is evaluated
    rcases hf : ctx.functions.get? name with _ | f
    · refine (Computes.fail ctx _ mark).of_eq (.callUndefined hf) fun r h => ?_
      cases h with
      | callUndefined => rfl
      | callArity hf' | callArgument hf' | call hf' =>
        rw [hf] at hf'
        cases hf'
    · by_cases hargs : args.length = f.params.length
      · simp only [if_pos hargs]
        exact ((computes_evaluateList ih).bind fun vs => hcaller name mark f vs).congr
          fun r => evaluated_call_iff hf hargs
      · simp only [if_neg hargs]
        refine (Computes.fail ctx _ mark).of_eq (.callArity hf hargs) fun r h => ?_
        cases h with
        | callUndefined hnone =>
          rw [hnone] at hf
          cases hf
        | callArity hf' =>
          rw [hf'] at hf
          cases hf
          rfl
        | callArgument hf' hargs' | call hf' hargs' =>
          rw [hf'] at hf
          cases hf
          exact absurd hargs' hargs
  | index mark object place iho ihp =>
    rw [evaluate]
    refine Computes.step hfree ?_
    refine (iho.bind fun v => ihp.bind fun w => ?_).congr fun r => evaluated_index_iff
    refine Computes.congr (D := (· = reportIndex object.mark place.mark (v.at? w))) ?_
      fun r => indexed_iff
    rcases v.at? w with (fault | fault) | u
    · exact .fail ctx fault object.mark
    · exact .fail ctx fault place.mark
    · exact .pure u
  | member mark object property iho =>
    rw [evaluate]
    refine Computes.step hfree ?_
    refine (iho.bind fun v => ?_).congr fun r => evaluated_member_iff
    exact (Computes.lift ctx mark _).congr fun r => memberOf_iff
  | method mark object name args iho ih =>
    rw [evaluate]
    refine Computes.step hfree ?_
    refine (iho.bind fun v => (computes_evaluateList ih).bind fun ws => ?_).congr
      fun r => evaluated_method_iff
    exact (Computes.lift ctx mark _).congr fun r => methodOf_iff

/-- Running a body follows its rules, as soon as making calls does. -/
theorem computes_runBody (hfree : ctx.Free)
    (hcaller : ∀ name site f vs, Computes (caller name site f vs)
      (Called limit isolated ctx.functions ctx.calls.length name site f vs))
    (cs : List (Clause Position)) (vars : Bindings) :
    Computes (runBody caller ctx cs vars)
      (Executed limit isolated ctx.functions ctx.calls.length vars cs) := by
  have hvalue := computes_evaluate hfree hcaller
  induction cs generalizing vars with
  | nil => exact (Computes.pure (vars, none)).congr fun r => executed_nil_iff
  | cons c cs ih =>
    cases c with
    | assign mark name e =>
      rw [runBody]
      refine Computes.step hfree ?_
      exact ((hvalue vars e).bind fun v => ih (vars.insert name v)).congr
        fun r => executed_assign_iff
    | ret mark e =>
      rw [runBody]
      refine Computes.step hfree ?_
      -- whether a call is open is all that the context has to say about a return
      rcases hcalls : ctx.calls with _ | ⟨frame, frames⟩
      · refine (Computes.fail ctx .returnOutside mark).of_eq .retOutside fun r h => ?_
        cases h with
        | ret hk | retValue hk => exact absurd hk (Nat.lt_irrefl 0)
        | retOutside => rfl
      · rw [← hcalls]
        have hk : 0 < ctx.calls.length := by
          rw [hcalls]
          exact Nat.succ_pos _
        have hnonempty : ctx.calls.isEmpty = false := by
          rw [hcalls]
          rfl
        simp only [hnonempty, Bool.false_eq_true, if_false]
        exact ((hvalue vars e).bind fun v => .pure (vars, some v)).congr
          fun r => executed_ret_iff hk

end Expressions

/-- **Making a call follows its rules**, by induction on the depth that is left: it and the calls
that are open make up the limit. -/
theorem computes_call (depth : Nat) {ctx : Context} (hfree : ctx.Free)
    (hdepth : ctx.calls.length + depth = ctx.limits.depth) (name : Bytes) (site : Position)
    (f : Func Position) (vs : List Value) :
    Computes (call depth ctx name site f vs) (Called ctx.limits.depth ctx.limits.isolated
      ctx.functions ctx.calls.length name site f vs) := by
  induction depth generalizing ctx name site f vs with
  | zero =>
    -- no depth is left, so the limit is reached
    have hle : ctx.limits.depth ≤ ctx.calls.length := Nat.le_of_eq hdepth.symm
    refine (Computes.fail ctx (.tooDeep ctx.limits.depth) site).of_eq (.tooDeep hle) fun r h => ?_
    cases h with
    | tooDeep => rfl
    | returned hk | noReturn hk | failed hk => exact absurd hk (Nat.not_lt.2 hle)
  | succ depth ih =>
    have hk : ctx.calls.length < ctx.limits.depth := by omega
    rw [call]
    have hinside : (ctx.enter name site).calls.length + depth =
        (ctx.enter name site).limits.depth := by
      simp only [Context.enter, List.length_cons]
      omega
    have hbody := computes_runBody (hfree.enter name site)
      (ih (hfree.enter name site) hinside) f.body (Table.empty.insertAll (f.params.zip vs))
    -- noting the call changes nothing but the meter
    refine Computes.after (fun m => ⟨_, rfl⟩) ?_
    refine (hbody.bind fun p => ?_).congr fun r => called_iff hk
    rcases p with ⟨vars, _ | v⟩
    · exact .fail _ (.noReturn name) f.mark
    · exact .pure v

/-! ### The top level -/

section Top

variable {limit : Nat} {isolated : Bool} {fs : Table (Func Position)} {vars : Bindings}

/-- The context of the top level, without a quota and without an interruption. -/
abbrev topContext (limit : Nat) (isolated : Bool) (fs : Table (Func Position)) : Context :=
  ⟨⟨none, limit, isolated⟩, none, fs, []⟩

theorem free_topContext : (topContext limit isolated fs).Free := ⟨rfl, rfl⟩

/-- Calls from the top level are computed, as calls are at every depth. -/
theorem computes_caller (name : Bytes) (site : Position) (f : Func Position) (vs : List Value) :
    Computes ((topContext limit isolated fs).caller name site f vs)
      (Called limit isolated fs 0 name site f vs) :=
  computes_call limit free_topContext (Nat.zero_add limit) name site f vs

theorem computes_topBody (cs : List (Clause Position)) (vars : Bindings) :
    Computes (runBody (topContext limit isolated fs).caller (topContext limit isolated fs) cs vars)
      (Executed limit isolated fs 0 vars cs) :=
  computes_runBody free_topContext computes_caller cs vars

/-- A body on the top level returns no value. -/
theorem eq_none_of_executed {cs : List (Clause Position)} {vars' : Bindings} {v? : Option Value}
    (h : Executed limit isolated fs 0 vars cs (.ok (vars', v?))) : v? = none := by
  induction cs generalizing vars with
  | nil =>
    cases h
    rfl
  | cons c cs ih =>
    cases h with
    | assign _ hcs => exact ih hcs
    | ret hk => exact absurd hk (Nat.lt_irrefl 0)

/-- A condition is decided by the truth value of its expression, and any other value is a fault of
the construct. -/
theorem decided_iff {construct : Construct} {condition : Expr Position}
    {r : Except ErrorReport Bool} :
    Decided limit isolated fs vars construct condition r ↔
      Then (Evaluated limit isolated fs 0 vars condition) (fun v r =>
        (∃ b, v = .bool b ∧ r = .ok b) ∨ v.kind ≠ .bool ∧
          r = .error ⟨.type, Fault.message (.condition construct v.kind), condition.mark⟩) r := by
  constructor
  · intro h
    cases h with
    | bool he => exact Or.inl ⟨_, he, Or.inl ⟨_, rfl, rfl⟩⟩
    | notBool he hkind => exact Or.inl ⟨_, he, Or.inr ⟨hkind, rfl⟩⟩
    | failed he => exact Or.inr ⟨_, he, rfl⟩
  · rintro (⟨v, he, ⟨b, rfl, rfl⟩ | ⟨hkind, rfl⟩⟩ | ⟨err, he, rfl⟩)
    · exact .bool he
    · exact .notBool he hkind
    · exact .failed he

/-- Deciding a condition computes what the rules decide. -/
theorem computes_holds (vars : Bindings) (construct : Construct) (condition : Expr Position) :
    Computes (holds (topContext limit isolated fs) vars construct condition)
      (Decided limit isolated fs vars construct condition) := by
  have hvalue : Computes
      (evaluate (topContext limit isolated fs).caller (topContext limit isolated fs) vars condition)
      (Evaluated limit isolated fs 0 vars condition) :=
    computes_evaluate free_topContext computes_caller vars condition
  refine (hvalue.bind fun v => ?_).congr fun r => decided_iff
  have hfail : Computes (Context.fail _ _ _ : Eval Bool) _ := Computes.fail
    (topContext limit isolated fs) (.condition construct v.kind) condition.mark
  cases v with
  | bool b =>
    refine (Computes.pure b).of_eq (Or.inl ⟨b, rfl, rfl⟩) fun r h => ?_
    rcases h with ⟨b', hb, rfl⟩ | ⟨hkind, -⟩
    · rw [Value.bool.inj hb]
    · exact absurd rfl hkind
  | array | number | text | invalid =>
    refine hfail.of_eq (Or.inr ⟨(fun h => by cases h), rfl⟩) fun r h => ?_
    rcases h with ⟨b, hb, -⟩ | ⟨-, rfl⟩
    · cases hb
    · rfl

/-! ### Loops -/

variable {condition : Expr Position} {body : List (Clause Position)}

/-- What comes of one round of a loop. -/
def RoundOf (limit : Nat) (isolated : Bool) (fs : Table (Func Position))
    (condition : Expr Position) (body : List (Clause Position)) (vars : Bindings) :
    Except ErrorReport (Option Bindings) → Prop :=
  Then (Decided limit isolated fs vars .loop condition) fun b =>
    if b then Then (Executed limit isolated fs 0 vars body) fun p => (· = .ok (some p.1))
    else (· = .ok none)

theorem computes_round (vars : Bindings) :
    Computes (round (topContext limit isolated fs) condition body vars)
      (RoundOf limit isolated fs condition body vars) := by
  refine (computes_holds vars .loop condition).bind fun b => ?_
  cases b with
  | false => exact .pure none
  | true => exact (computes_topBody body vars).bind fun p => .pure (some p.1)

theorem looped_of_round_error {err : ErrorReport}
    (h : RoundOf limit isolated fs condition body vars (.error err)) :
    Looped limit isolated fs condition body vars (.error err) := by
  rcases h with ⟨b | b, hb, h⟩ | ⟨err', hb, herr⟩
  · cases h
  · rcases h with ⟨p, -, h⟩ | ⟨err', hbody, herr⟩
    · cases h
    · cases herr
      exact .body hb hbody
  · cases herr
    exact .condition hb

/-- A loop ends with the round in which its condition does not hold. -/
theorem looped_of_round_last (h : RoundOf limit isolated fs condition body vars (.ok none)) :
    Looped limit isolated fs condition body vars (.ok vars) := by
  rcases h with ⟨b | b, hb, h⟩ | ⟨err, -, herr⟩
  · exact .last hb
  · rcases h with ⟨p, -, h⟩ | ⟨err, -, herr⟩
    · cases h
    · cases herr
  · cases herr

/-- A loop goes on, after a round in which its condition holds, from the variables that the round
has left. -/
theorem looped_of_round_again {vars' : Bindings} {r : Except ErrorReport Bindings}
    (h : RoundOf limit isolated fs condition body vars (.ok (some vars')))
    (hr : Looped limit isolated fs condition body vars' r) :
    Looped limit isolated fs condition body vars r := by
  rcases h with ⟨b | b, hb, h⟩ | ⟨err, -, herr⟩
  · cases h
  · rcases h with ⟨⟨vars'', v?⟩, hbody, h⟩ | ⟨err, -, herr⟩
    · cases h
      obtain rfl := eq_none_of_executed hbody
      exact .again hb hbody hr
    · cases herr
  · cases herr

/-- **What the rules say of a loop comes true**: it ends after finitely many rounds, with the answer
that they allow. The induction is over the derivation, one round at a time. -/
theorem exists_loop?_of_looped {r : Except ErrorReport Bindings}
    (h : Looped limit isolated fs condition body vars r) (m : Meter) :
    ∃ o, loop? (topContext limit isolated fs) condition body vars m = some o ∧
      o.answer? = some r := by
  induction h generalizing m with
  | @last vars hb =>
    have hround : RoundOf limit isolated fs condition body vars (.ok none) := Or.inl ⟨_, hb, rfl⟩
    obtain ⟨n, hn⟩ := exists_done_of_answer? ((computes_round vars).answers hround m)
    exact ⟨_, loop?_of_none hn, rfl⟩
  | @again vars vars' r hb hbody _ ih =>
    have hround : RoundOf limit isolated fs condition body vars (.ok (some vars')) :=
      Or.inl ⟨_, hb, Or.inl ⟨_, hbody, rfl⟩⟩
    obtain ⟨n, hn⟩ := exists_done_of_answer? ((computes_round vars).answers hround m)
    -- a round with more to come leaves the rest of the derivation to the rest of the loop
    rw [loop?_of_some hn]
    exact ih n
  | @condition vars err hb =>
    have hround : RoundOf limit isolated fs condition body vars (.error err) :=
      Or.inr ⟨_, hb, rfl⟩
    obtain ⟨f, n, hn, rfl⟩ := exists_failed_of_answer? ((computes_round vars).answers hround m)
    exact ⟨_, loop?_of_stopped hn, rfl⟩
  | @body vars err hb hbody =>
    have hround : RoundOf limit isolated fs condition body vars (.error err) :=
      Or.inl ⟨_, hb, Or.inr ⟨_, hbody, rfl⟩⟩
    obtain ⟨f, n, hn, rfl⟩ := exists_failed_of_answer? ((computes_round vars).answers hround m)
    exact ⟨_, loop?_of_stopped hn, rfl⟩

/-- A loop that has an outcome has a derivation, unless a round of it never ends. -/
theorem exists_looped_of_loop? {m : Meter} {o : Outcome Bindings}
    (h : loop? (topContext limit isolated fs) condition body vars m = some o) :
    (∃ r, Looped limit isolated fs condition body vars r) ∨ ∃ n, o = .stopped .unfinished n := by
  refine loop?_induction (Q := fun vars _ o =>
    (∃ r, Looped limit isolated fs condition body vars r) ∨ ∃ n, o = .stopped .unfinished n)
    ?_ ?_ ?_ h
  · -- a round that stops has failed or never ends
    intro vars m s n hn
    rcases (computes_round vars).cases m with ⟨err | vars', hr, ha⟩ | ⟨n', hn'⟩
    · exact Or.inl ⟨_, looped_of_round_error hr⟩
    · obtain ⟨n', hn'⟩ := exists_done_of_answer? ha
      cases hn.symm.trans hn'
    · cases hn.symm.trans hn'
      exact Or.inr ⟨n, rfl⟩
  · -- the last round
    intro vars m n hn
    rcases (computes_round vars).cases m with ⟨r, hr, ha⟩ | ⟨n', hn'⟩
    · rw [hn] at ha
      cases ha
      exact Or.inl ⟨_, looped_of_round_last hr⟩
    · cases hn.symm.trans hn'
  · -- a round with more to come
    intro vars m vars' n o hn ih
    rcases (computes_round vars).cases m with ⟨r, hr, ha⟩ | ⟨n', hn'⟩
    · rw [hn] at ha
      cases ha
      exact ih.imp_left fun ⟨r, hl⟩ => ⟨r, looped_of_round_again hr hl⟩
    · cases hn.symm.trans hn'

/-- **Running a loop follows its rules**, and goes on for good where they say nothing. -/
theorem computes_loop (vars : Bindings) :
    Computes (loop (topContext limit isolated fs) condition body vars)
      (Looped limit isolated fs condition body vars) where
  answers h m := by
    obtain ⟨o, ho, ha⟩ := exists_loop?_of_looped h m
    rw [loop_eq_of_loop? ho, ha]
  total := by
    by_cases hr : ∃ r, Looped limit isolated fs condition body vars r
    · exact Or.inl hr
    · refine Or.inr fun m => ?_
      rcases hl : loop? (topContext limit isolated fs) condition body vars m with _ | o
      · exact ⟨m, by rw [loop, hl, Option.getD_none]⟩
      · obtain ⟨n, rfl⟩ := (exists_looped_of_loop? hl).resolve_left hr
        exact ⟨n, loop_eq_of_loop? hl⟩

end Top

/-! ### Scripts -/

section Scripts

variable {limit : Nat} {isolated : Bool} {w : World}

/-- On the top level a clause is a body of its own. -/
theorem performed_clause_iff {c : Clause Position} {r : Except ErrorReport World} :
    Performed limit isolated w (.clause c) r ↔
      Then (Executed limit isolated w.functions 0 w.bindings [c])
        (fun p => (· = .ok { w with bindings := p.1 })) r := by
  constructor
  · intro h
    cases h with
    | clause hc => exact Or.inl ⟨_, hc, rfl⟩
    | clauseFailed hc => exact Or.inr ⟨_, hc, rfl⟩
  · rintro (⟨⟨vars, v?⟩, hc, rfl⟩ | ⟨err, hc, rfl⟩)
    · obtain rfl := eq_none_of_executed hc
      exact .clause hc
    · exact .clauseFailed hc

/-- A conditional runs its body, or nothing, as its condition is decided. -/
theorem performed_cond_iff {mark : Position} {condition : Expr Position}
    {body : List (Clause Position)} {r : Except ErrorReport World} :
    Performed limit isolated w (.cond mark condition body) r ↔
      Then (Decided limit isolated w.functions w.bindings .cond condition) (fun b =>
        if b then Then (Executed limit isolated w.functions 0 w.bindings body)
          fun p => (· = .ok { w with bindings := p.1 })
        else (· = .ok w)) r := by
  constructor
  · intro h
    cases h with
    | condTrue hb hbody => exact Or.inl ⟨_, hb, Or.inl ⟨_, hbody, rfl⟩⟩
    | condFalse hb => exact Or.inl ⟨_, hb, rfl⟩
    | condCondition hb => exact Or.inr ⟨_, hb, rfl⟩
    | condBody hb hbody => exact Or.inl ⟨_, hb, Or.inr ⟨_, hbody, rfl⟩⟩
  · rintro (⟨b | b, hb, h⟩ | ⟨err, hb, rfl⟩)
    · obtain rfl : r = .ok w := h
      exact .condFalse hb
    · rcases h with ⟨⟨vars, v?⟩, hbody, rfl⟩ | ⟨err, hbody, rfl⟩
      · obtain rfl := eq_none_of_executed hbody
        exact .condTrue hb hbody
      · exact .condBody hb hbody
    · exact .condCondition hb

/-- A loop leaves the variables that its rounds have left, and the functions as they were. -/
theorem performed_loop_iff {mark : Position} {condition : Expr Position}
    {body : List (Clause Position)} {r : Except ErrorReport World} :
    Performed limit isolated w (.loop mark condition body) r ↔
      Then (Looped limit isolated w.functions condition body w.bindings)
        (fun vars => (· = .ok { w with bindings := vars })) r := by
  constructor
  · intro h
    cases h with
    | loop hl => exact Or.inl ⟨_, hl, rfl⟩
    | loopFailed hl => exact Or.inr ⟨_, hl, rfl⟩
  · rintro (⟨vars, hl, rfl⟩ | ⟨err, hl, rfl⟩)
    · exact .loop hl
    · exact .loopFailed hl

/-- **Running a statement computes what the rules perform.** -/
theorem computes_runStatement (w : World) (s : Stmt Position) :
    Computes (runStatement loop ⟨⟨none, limit, isolated⟩, none⟩ w s)
      (Performed limit isolated w s) := by
  cases s with
  | clause c =>
    exact ((computes_topBody [c] w.bindings).bind fun p =>
      .pure { w with bindings := p.1 }).congr fun r => performed_clause_iff
  | func name f =>
    refine Computes.step free_topContext ((Computes.pure _).of_eq .func fun r h => ?_)
    cases h
    rfl
  | cond mark condition body =>
    refine Computes.step free_topContext ?_
    refine ((computes_holds w.bindings .cond condition).bind fun b => ?_).congr
      fun r => performed_cond_iff
    cases b with
    | false => exact .pure w
    | true =>
      exact (computes_topBody body w.bindings).bind fun p => .pure { w with bindings := p.1 }
  | loop mark condition body =>
    refine Computes.step free_topContext ?_
    exact ((computes_loop w.bindings).bind fun vars => .pure { w with bindings := vars }).congr
      fun r => performed_loop_iff

/-- Statements are performed in order, each in the world that the ones before it have left. -/
theorem performedAll_cons_iff {s : Stmt Position} {ss : List (Stmt Position)}
    {r : Except ErrorReport World} :
    PerformedAll limit isolated w (s :: ss) r ↔
      Then (Performed limit isolated w s) (fun w' => PerformedAll limit isolated w' ss) r := by
  constructor
  · intro h
    cases h with
    | cons hs hss => exact Or.inl ⟨_, hs, hss⟩
    | failed hs => exact Or.inr ⟨_, hs, rfl⟩
  · rintro (⟨w', hs, hss⟩ | ⟨err, hs, rfl⟩)
    · exact .cons hs hss
    · exact .failed hs

/-- **Running statements follows their rules.** -/
theorem computes_runStatements (w : World) (ss : List (Stmt Position)) :
    Computes (runStatements loop ⟨⟨none, limit, isolated⟩, none⟩ w ss)
      (PerformedAll limit isolated w ss) := by
  induction ss generalizing w with
  | nil =>
    refine (Computes.pure w).of_eq .nil fun r h => ?_
    cases h
    rfl
  | cons s ss ih =>
    exact ((computes_runStatement w s).bind fun w' => ih w').congr
      fun r => performedAll_cons_iff

/-- What a run says, once what it used is left out: the variables at its end, or its error. A run
that never ends says nothing. -/
def Run.answer? (r : Run) : Option (Except ErrorReport Bindings) :=
  match r.result with
  | .ok w => some (.ok w.bindings)
  | .error (.failed f) => some (.error ⟨f.fault.kind, f.fault.message, f.position⟩)
  | .error .cancelled | .error .unfinished => none

/-- What a run says is what its statements say, without the functions. -/
theorem answer?_runScript (settings : Settings) (w : World) (script : Script) :
    (runScript settings w script).answer? =
      (runStatements loop settings w script.statements ⟨0, []⟩).answer?.map
        (Except.map World.bindings) := by
  rw [runScript]
  rcases runStatements loop settings w script.statements ⟨0, []⟩ with ⟨v, n⟩ | ⟨_ | _ | _, n⟩
  all_goals rfl

/-- A script yields the variables of the world that its statements leave. -/
theorem yielded_iff {script : Script} {r : Except ErrorReport Bindings} :
    Yielded limit isolated script r ↔
      ∃ r', PerformedAll limit isolated .empty script.statements r' ∧
        Except.map World.bindings r' = r := by
  constructor
  · intro h
    cases h with
    | bindings h => exact ⟨_, h, rfl⟩
    | failed h => exact ⟨_, h, rfl⟩
  · rintro ⟨err | w, h, rfl⟩
    · exact .failed h
    · exact .bindings h

end Scripts

/-- **A run gives what the definition of the language says.** Without a quota and without an
interruption, running a script gives an answer exactly when the rules derive it; so there is at most
one, and the run goes on for good exactly when the rules derive nothing. -/
theorem run_iff_yielded (limit : Nat) (isolated : Bool) (script : Script) :
    let run := runScript ⟨⟨none, limit, isolated⟩, none⟩ .empty script
    (∀ r, run.answer? = some r ↔ Yielded limit isolated script r) ∧
    (∀ r r', Yielded limit isolated script r → Yielded limit isolated script r' → r = r') ∧
    (run.result = .error .unfinished ↔ ∀ r, ¬Yielded limit isolated script r) := by
  intro run
  have hrun : Computes (runStatements loop ⟨⟨none, limit, isolated⟩, none⟩ .empty script.statements)
      (PerformedAll limit isolated .empty script.statements) := computes_runStatements _ _
  have hiff : ∀ r, run.answer? = some r ↔ Yielded limit isolated script r := by
    intro r
    rw [answer?_runScript, Option.map_eq_some_iff, yielded_iff]
    simp only [hrun.iff_answer]
  refine ⟨hiff, fun r r' hr hr' => ?_, fun hnever r hr => ?_, fun hnone => ?_⟩
  · exact Option.some.inj (((hiff r).2 hr).symm.trans ((hiff r').2 hr'))
  · have hanswer := (hiff r).2 hr
    rw [Run.answer?, hnever] at hanswer
    cases hanswer
  -- where no answer is derived the run has none, and then it goes on for good
  · rcases hrun.cases ⟨0, []⟩ with ⟨r, hr, -⟩ | ⟨n, hn⟩
    · exact absurd (yielded_iff.2 ⟨r, hr, rfl⟩) (hnone _)
    · have hresult : run = ⟨.error .unfinished, n⟩ := by
        show runScript _ _ _ = _
        rw [runScript, hn]
      rw [hresult]

end Scriptlet
