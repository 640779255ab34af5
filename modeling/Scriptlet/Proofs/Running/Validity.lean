import Scriptlet.Proofs.Running.Events
import Scriptlet.Proofs.Running.Indices
import Scriptlet.Proofs.Session
import Scriptlet.Proofs.Value.Equality

/-!
# No script makes an invalid value

There is a value for what was never given, and functions that show and compare values know about it.
No script comes across it. Literals are valid, operations make valid values of valid ones, and so
does a call of a function, by induction on the number of calls that may be opened. So a body
that starts with valid variables ends with such, a loop does so by induction over its rounds,
and all that a session holds after any operations is valid (`Transcript.valid_after`).

What a run ends with is not all that it comes across. The values of expressions and the variables of
scopes on the way are among the events of the run, and none of them is invalid (`Traced.Gives`).
-/

namespace Scriptlet

/-! ### Valid values -/

/-- A value that holds no invalid value, at any depth. -/
def Value.Valid (v : Value) : Prop :=
  .invalid ∉ v.parts

/-- Variables with valid values only. -/
def Bindings.Valid (vars : Bindings) : Prop :=
  ∀ x v, vars.get? x = some v → v.Valid

namespace Value

theorem valid_bool (b : Bool) : (Value.bool b).Valid := by simp [Valid, parts]

theorem valid_number (x : Float) : (Value.number x).Valid := by simp [Valid, parts]

theorem valid_text (s : ByteArray) : (Value.text s).Valid := by simp [Valid, parts]

/-- An array is valid when its elements are. -/
theorem valid_array {vs : List Value} : (Value.array vs).Valid ↔ ∀ v ∈ vs, v.Valid := by
  simp [Valid, mem_parts_array]

/-- Operators give truth values, numbers and texts, which are valid. -/
theorem valid_of_combine {op : Operator} {v w u : Value} (h : v.combine op w = .ok u) :
    u.Valid := by
  unfold combine combine? at h
  split at h
  · rename_i r hr
    cases h
    split at hr <;> cases hr <;>
      first | exact valid_number _ | exact valid_bool _ | exact valid_text _
  · cases h

/-- What is found in a valid value is valid: an element of an array, or a text. -/
theorem valid_of_at? {v w u : Value} (hv : v.Valid) (h : v.at? w = .ok u) : u.Valid := by
  unfold at? at h
  split at h
  · rename_i elements
    split at h
    · rename_i x
      split at h
      · rename_i r hr
        cases h
        obtain ⟨i, -, hi⟩ := Option.bind_eq_some_iff.1 hr
        exact valid_array.1 hv u (List.mem_of_getElem? hi)
      · cases h
    · cases h
  · cases h

/-- The only member is a number. -/
theorem valid_of_member {v u : Value} {property : Bytes} (h : v.member property = .ok u) :
    u.Valid := by
  unfold member at h
  split at h
  · cases h
    exact valid_number _
  · cases h

/-- Methods give truth values. -/
theorem valid_of_method {v u : Value} {name : Bytes} {args : List Value}
    (h : v.method name args = .ok u) : u.Valid := by
  unfold method at h
  split at h
  · split at h
    · split at h
      · cases h
        exact valid_bool _
      · cases h
      · cases h
    · cases h
  · cases h

end Value

theorem Bindings.valid_empty : Bindings.Valid .empty := by
  intro x v h
  cases h

/-- Valid variables stay valid with a valid value for one of them. -/
theorem Bindings.Valid.insert {vars : Bindings} (h : vars.Valid) (x : Bytes) {v : Value}
    (hv : v.Valid) : Bindings.Valid (vars.insert x v) := by
  intro y w hw
  rw [Table.get?_insert] at hw
  split at hw
  · cases hw
    exact hv
  · exact h y w hw

theorem Bindings.Valid.insertAll {vars : Bindings} {es : List (Bytes × Value)} (h : vars.Valid)
    (hes : ∀ e ∈ es, e.2.Valid) : Bindings.Valid (vars.insertAll es) := by
  induction es generalizing vars with
  | nil => exact h
  | cons e es ih =>
    obtain ⟨he, hes⟩ := List.forall_mem_cons.1 hes
    exact ih (h.insert e.1 he) hes

/-! ### What an evaluation gives -/

/-- An event without an invalid value. -/
def Event.Valid : Event → Prop
  | scope vars => vars.Valid
  | value v => v.Valid
  | step | call _ => True

/-- **No event of an evaluation has an invalid value**, and every result satisfies a predicate. -/
structure Traced.Gives {α : Type} (P : α → Prop) (x : Traced α) : Prop where
  events : ∀ m, ∀ e ∈ (x m).2, e.Valid
  result : ∀ {m a n}, (x m).1 = .done a n → P a

namespace Traced.Gives

variable {α β : Type} {P : α → Prop} {Q : β → Prop} {x : Traced α} {f : α → Traced β}

protected theorem pure {a : α} (h : P a) : (pure a : Traced α).Gives P where
  events m e he := absurd he List.not_mem_nil
  result hdone := by
    cases hdone
    exact h

/-- One evaluation after another: every event of both is valid, and the second one starts from a
good result. -/
protected theorem bind (hx : x.Gives P) (hf : ∀ a, P a → (f a).Gives Q) : (x >>= f).Gives Q where
  events m e he := by
    rcases hm : (x m).1 with ⟨a, n⟩ | ⟨s, n⟩
    · rw [bind_of_done hm] at he
      exact (List.mem_append.1 he).elim (hx.events m e) ((hf a (hx.result hm)).events n e)
    · rw [bind_of_stopped hm] at he
      exact hx.events m e he
  result {m b n} hdone := by
    rcases hm : (x m).1 with ⟨a, n'⟩ | ⟨s, n'⟩
    · rw [bind_of_done hm] at hdone
      exact (hf a (hx.result hm)).result hdone
    · rw [bind_of_stopped hm] at hdone
      cases hdone

/-- What happens without an invalid value may happen anywhere. -/
theorem happening (e : Event) (he : e.Valid) {y : Eval α} (hy : ∀ m a n, y m = .done a n → P a) :
    (Traced.happening [e] y).Gives P where
  events m e' he' := by
    rw [List.mem_singleton.1 he']
    exact he
  result := hy _ _ _

theorem step {ctx : Context} {f : Unit → Traced β} (hf : (f ()).Gives Q) :
    (Traced.step ctx >>= f).Gives Q :=
  (happening (P := fun _ => True) .step trivial fun _ _ _ _ => trivial).bind fun _ _ => hf

theorem enter {record : CallRecord} {f : Unit → Traced β} (hf : (f ()).Gives Q) :
    (Traced.enter record >>= f).Gives Q :=
  (happening (P := fun _ => True) (.call record) trivial fun _ _ _ _ => trivial).bind fun _ _ => hf

theorem scope {vars : Bindings} (hvars : vars.Valid) {f : Unit → Traced β} (hf : (f ()).Gives Q) :
    (Traced.scope vars >>= f).Gives Q :=
  (happening (P := fun _ => True) (.scope vars) hvars fun _ _ _ _ => trivial).bind fun _ _ => hf

/-- The value of an expression is an event of its own. -/
theorem valued {x : Traced Value} (hx : x.Gives Value.Valid) :
    (Traced.valued x).Gives Value.Valid := by
  refine hx.bind fun v hv => happening (.value v) hv fun m a n hdone => ?_
  cases hdone
  exact hv

theorem stop {x : Eval α} (h : ∀ m, ∃ s n, x m = .stopped s n) : (quiet x).Gives P where
  events m e he := absurd he List.not_mem_nil
  result {m a n} hdone := by
    obtain ⟨s, n', hstop⟩ := h m
    cases hstop.symm.trans hdone

theorem fail (ctx : Context) (fault : Fault) (position : Position) :
    (quiet (ctx.fail fault position) : Traced α).Gives P :=
  stop fun _ => ⟨_, _, rfl⟩

/-- An operation makes no event. -/
theorem lift (ctx : Context) (position : Position) {r : Except Fault Value}
    {P : Value → Prop} (h : ∀ v, r = .ok v → P v) : (quiet (ctx.lift position r)).Gives P := by
  cases r with
  | ok v => exact .pure (h v rfl)
  | error fault => exact fail ctx fault position

end Traced.Gives

/-! ### Valid results -/

namespace Traced

/-- Calls with valid variables in their scopes have valid results. -/
def Caller.Valid (caller : Caller) : Prop :=
  ∀ name site f own, own.Valid → (caller name site f own).Gives Value.Valid

section Valid

variable {caller : Caller} {ctx : Context} {vars : Bindings}

theorem valid_evaluateList {es : List (Expr Position)}
    (h : ∀ e ∈ es, (evaluate caller ctx vars e).Gives Value.Valid) :
    (evaluateList caller ctx vars es).Gives fun vs => ∀ v ∈ vs, v.Valid := by
  induction es with
  | nil =>
    rw [evaluateList]
    exact .pure (by simp)
  | cons e es ih =>
    obtain ⟨he, hes⟩ := List.forall_mem_cons.1 h
    rw [evaluateList]
    exact he.bind fun v hv => (ih hes).bind fun vs hvs => .pure (List.forall_mem_cons.2 ⟨hv, hvs⟩)

/-- Arguments are bound one after another, and after each of them the scope is valid. -/
theorem valid_bindArguments {es : List (Expr Position)}
    (h : ∀ e ∈ es, (evaluate caller ctx vars e).Gives Value.Valid) (params : List Bytes)
    {own : Bindings} (hown : own.Valid) :
    (bindArguments caller ctx vars params own es).Gives Bindings.Valid := by
  induction es generalizing params own with
  | nil => cases params <;> exact .pure hown
  | cons e es ih =>
    obtain ⟨he, hes⟩ := List.forall_mem_cons.1 h
    cases params with
    | nil => exact .pure hown
    | cons param params =>
      rw [bindArguments]
      refine he.bind fun v hv => ?_
      have hown' := hown.insert param hv
      exact .scope hown' (ih hes params hown')

/-- **Expressions have valid values**, and nothing invalid comes up on the way. -/
theorem valid_evaluate (hcaller : caller.Valid) (hvars : vars.Valid) (e : Expr Position) :
    (evaluate caller ctx vars e).Gives Value.Valid := by
  induction e with
  | var mark name =>
    rw [evaluate]
    refine .valued (.step ?_)
    split
    · rename_i v hv
      exact .pure (hvars name v hv)
    · exact .fail _ _ _
  | bool mark b =>
    rw [evaluate]
    exact .valued (.step (.pure (Value.valid_bool b)))
  | number mark x =>
    rw [evaluate]
    exact .valued (.step (.pure (Value.valid_number x)))
  | text mark s =>
    rw [evaluate]
    exact .valued (.step (.pure (Value.valid_text _)))
  | array mark elements ih =>
    rw [evaluate]
    exact .valued (.step ((valid_evaluateList ih).bind fun vs hvs =>
      .pure (Value.valid_array.2 hvs)))
  | binary mark op left right ihl ihr =>
    rw [evaluate]
    exact .valued (.step (ihl.bind fun v _ => ihr.bind fun w _ =>
      .lift ctx mark fun u => Value.valid_of_combine))
  | call mark name args ih =>
    rw [evaluate]
    refine .valued (.step ?_)
    split
    · exact .fail _ _ _
    · split
      · exact (valid_bindArguments ih _ Bindings.valid_empty).bind fun own hown =>
          hcaller name mark _ own hown
      · exact .fail _ _ _
  | index mark object place iho ihp =>
    rw [evaluate]
    refine .valued (.step (iho.bind fun v hv => ihp.bind fun w _ => ?_))
    split
    · rename_i r hr
      exact .pure (Value.valid_of_at? hv hr)
    · exact .fail _ _ _
    · exact .fail _ _ _
  | member mark object property iho =>
    rw [evaluate]
    exact .valued (.step (iho.bind fun v _ => .lift ctx mark fun u => Value.valid_of_member))
  | method mark object name args iho ih =>
    rw [evaluate]
    exact .valued (.step (iho.bind fun v _ => (valid_evaluateList ih).bind fun ws _ =>
      .lift ctx mark fun u => Value.valid_of_method))

/-- **Bodies end with valid variables**, and return valid values. -/
theorem valid_runBody (hcaller : caller.Valid) (hvars : vars.Valid) (cs : List (Clause Position)) :
    (runBody caller ctx cs vars).Gives fun r => r.1.Valid ∧ ∀ v ∈ r.2, v.Valid := by
  induction cs generalizing vars with
  | nil =>
    rw [runBody]
    exact .pure ⟨hvars, by simp⟩
  | cons c cs ih =>
    cases c with
    | assign mark name value =>
      rw [runBody]
      refine .step ((valid_evaluate hcaller hvars value).bind fun v hv => ?_)
      have hvars' := hvars.insert name hv
      exact .scope hvars' (ih hvars')
    | ret mark value =>
      rw [runBody]
      refine .step ?_
      split
      · exact .fail _ _ _
      · exact (valid_evaluate hcaller hvars value).bind fun v hv => .pure ⟨hvars, by simpa using hv⟩

/-- **Calls have valid results**, by induction on the number of calls that may be opened. -/
theorem valid_call (depth : Nat) (ctx : Context) : Caller.Valid (call depth ctx) := by
  induction depth generalizing ctx with
  | zero =>
    intro name site f own _
    rw [call]
    exact .fail _ _ _
  | succ depth ih =>
    intro name site f own hown
    rw [call]
    refine .enter ((valid_runBody (ih _) hown f.body).bind fun r hr => ?_)
    obtain ⟨vars, returned⟩ := r
    cases returned with
    | none => exact .fail _ _ _
    | some v => exact .pure (hr.2 v rfl)

theorem valid_holds (hvars : vars.Valid) (construct : Construct) (condition : Expr Position) :
    (holds ctx vars construct condition).Gives fun _ => True := by
  refine (valid_evaluate (valid_call _ ctx) hvars condition).bind fun v _ => ?_
  cases v with
  | bool b => exact .pure trivial
  | invalid | number | text | array => exact .fail _ _ _

/-- Loops end with valid variables, by induction over the rounds. -/
theorem valid_loopUpTo (condition : Expr Position) (body : List (Clause Position)) (rounds : Nat)
    (hvars : vars.Valid) :
    (loopUpTo ctx condition body rounds vars).Gives Bindings.Valid := by
  induction rounds generalizing vars with
  | zero => exact .stop fun m => ⟨_, _, rfl⟩
  | succ rounds ih =>
    rw [loopUpTo]
    refine (valid_holds hvars .loop condition).bind fun b _ => ?_
    split
    · exact (valid_runBody (valid_call _ ctx) hvars body).bind fun r hr => ih hr.1
    · exact .pure hvars

end Valid

section World

variable {settings : Settings} {rounds : Nat} {w : World}

/-- **Running a statement keeps the variables valid**, and so are all values on the way. -/
theorem valid_runStatement (hw : w.bindings.Valid) (s : Stmt Position) :
    (runStatement settings rounds w s).Gives fun w' => w'.bindings.Valid := by
  have hbody (cs : List (Clause Position)) :
      (runBody (caller (settings.context w)) (settings.context w) cs w.bindings).Gives
        fun r => r.1.Valid ∧ ∀ v ∈ r.2, v.Valid :=
    valid_runBody (valid_call _ _) hw cs
  cases s with
  | clause c =>
    rw [runStatement]
    exact (hbody [c]).bind fun r hr => .pure hr.1
  | func name f => exact .step (.pure hw)
  | cond mark condition body =>
    rw [runStatement]
    refine .step ((valid_holds hw .cond condition).bind fun b _ => ?_)
    split
    · exact (hbody body).bind fun r hr => .pure hr.1
    · exact .pure hw
  | loop mark condition body =>
    rw [runStatement]
    exact .step ((valid_loopUpTo condition body rounds hw).bind fun vars hvars => .pure hvars)

/-- **Nothing invalid comes up when statements run** in a valid world. -/
theorem valid_runStatements (hw : w.bindings.Valid) (ss : List (Stmt Position)) :
    (runStatements settings rounds w ss).Gives fun w' => w'.bindings.Valid := by
  induction ss generalizing w with
  | nil =>
    rw [runStatements]
    exact .pure hw
  | cons s ss ih =>
    rw [runStatements]
    exact (valid_runStatement hw s).bind fun w' hw' => ih hw'

end World

end Traced

/-! ### Valid sessions -/

/-- Statements that run to their end leave valid variables: they do so after some number of
rounds. -/
theorem valid_of_runStatements {settings : Settings} {w w' : World} {ss : List (Stmt Position)}
    {m n : Meter} (hw : w.bindings.Valid) (h : runStatements loop settings w ss m = .done w' n) :
    w'.bindings.Valid := by
  -- a run that goes on for good does not end with a world
  rcases (approaches_runStatements settings w ss).eventually_eq m with ⟨n', hn⟩ | ⟨rounds, hrounds⟩
  · cases hn.symm.trans h
  · have hcut := (hrounds rounds le_rfl).trans h
    exact (Traced.valid_runStatements hw ss).result
      ((Tells.runStatements settings rounds w ss m).outcome.trans hcut)

/-- **All that a session holds is valid**, after any operations. -/
theorem Transcript.valid_after (limits : Limits) (ops : List Session.Op) :
    (Transcript.after limits ops).session.bindings.Valid := by
  suffices h : ∀ t : Transcript, t.session.bindings.Valid →
      (ops.foldl Transcript.apply t).session.bindings.Valid from h _ Bindings.valid_empty
  induction ops with
  | nil => exact fun t ht => ht
  | cons op ops ih =>
    intro t ht
    refine ih _ ?_
    cases op with
    | reset => exact Bindings.valid_empty
    | exec cancelAt source =>
      rcases t.session.exec_cases cancelAt source with
        ⟨script, w, m, -, hrun, hexec⟩ | ⟨e, hexec⟩
      · rw [apply, hexec]
        exact valid_of_runStatements ht hrun
      · rw [apply, hexec]
        exact ht

/-- **Evaluation makes only valid values.** After any operations of a session, the variables are
valid, and a run from there, whose loops may be cut off after any number of rounds, binds only valid
values in any scope, and only such are values of expressions; so what it leaves behind is valid,
too.

An array has a length; and indexing it with a number succeeds exactly when the number is finite and,
cut off toward zero, it is at least zero and less than that length. Then there is an element at that
place, which is the result. -/
theorem values_valid (limits : Limits) (ops : List Session.Op) (cancelAt : Option Nat)
    (script : Script) :
    let s : Settings := ⟨limits, cancelAt⟩
    let w := (Transcript.after limits ops).session.world
    let run := runScript s w script
    w.bindings.Valid ∧
    (∀ rounds,
      (Traced.runStatements s rounds w script.statements ⟨0, []⟩).1.run =
        runUpTo s w script rounds ∧
      (∀ vars, .scope vars ∈ eventsUpTo s w script rounds → vars.Valid) ∧
      ∀ v, .value v ∈ eventsUpTo s w script rounds → v.Valid) ∧
    (run.result ≠ .error .unfinished →
      ∃ enough, ∀ rounds, enough ≤ rounds → runUpTo s w script rounds = run) ∧
    (∀ w', run.result = .ok w' → w'.bindings.Valid) ∧
    ∀ vs x,
      let index := (Value.array vs).at? (.number x)
      (Value.array vs).length? = some vs.length ∧
      ((∃ v, index = .ok v) ↔
        ∃ t, (Binary.ofFloat x).truncated? = some t ∧ 0 ≤ t ∧ t < vs.length) ∧
      ∀ t, (Binary.ofFloat x).truncated? = some t → 0 ≤ t → t < vs.length →
        ∃ v, (Value.array vs).element? t = some v ∧ index = .ok v := by
  intro s w run
  have hw : w.bindings.Valid := Transcript.valid_after limits ops
  refine ⟨hw, fun rounds => ?_, exists_runUpTo_eq, fun w' hw' => ?_, fun vs x => ?_⟩
  · have hgives : (Traced.runStatements s rounds w script.statements).Gives
        fun w' => w'.bindings.Valid := Traced.valid_runStatements hw script.statements
    exact ⟨Traced.run_runStatements s w script rounds, fun vars h => hgives.events _ _ h,
      fun v h => hgives.events _ _ h⟩
  -- a run with an answer has come through all of its statements
  · have hresult : (runScript s w script).result = .ok w' := hw'
    unfold runScript at hresult
    split at hresult
    · rename_i hrun
      cases hresult
      exact valid_of_runStatements hw hrun
    · cases hresult
  · refine ⟨rfl, ⟨fun ⟨v, hv⟩ => Value.inRange_of_at? hv, fun ⟨t, ht, hnonneg, hlt⟩ => ?_⟩,
      fun t => Value.exists_at?_of_inRange⟩
    obtain ⟨v, -, hv⟩ := Value.exists_at?_of_inRange ht hnonneg hlt
    exact ⟨v, hv⟩

end Scriptlet
