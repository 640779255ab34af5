import Scriptlet.Proofs.Running.Basic
import Scriptlet.Proofs.Tree

/-!
# Scopes in a store

What an expression sees of variables and functions is handed to it, and it hands nothing back; so
there is no question of an expression that changes a variable. It is different when scopes are
kept in a **store**, and are handed about as addresses. Then whoever has the address of a scope can
read it and write to it, and a function that is called runs with the address of a scope of its own
and with that of the functions of the top level.

This is how scripts are run here. An evaluation has a store before it and one after it (`Stored`),
and it takes place somewhere: in a scope, with certain calls open, on a certain top level (`Place`).
The scope of a call is opened before its arguments are evaluated, which is done in the scope of the
caller; each is written to the new scope when it is known, under the name of its parameter. After
that the body writes there, too.

All the same an expression leaves every scope and every table of functions as it was, and adds new
ones at most (`Store.Extends`). And it comes to what it comes to when variables and functions are
handed to it as they are in the store: an evaluation in a store **follows** one without
(`Place.Shows.evaluate`).
-/

namespace Scriptlet

variable {α β : Type}

/-! ### Stores -/

/-- A scope, as the addresses of its variables and of its functions. -/
structure Scope where
  /-- Where its variables are. -/
  bindings : Nat
  /-- Where its functions are. -/
  functions : Nat

/-- **A store**: the variables of all scopes, and all tables of functions. Several scopes may have
the same table. -/
structure Store where
  /-- The variables of scopes. -/
  scopes : List Bindings
  /-- Tables of functions. -/
  tables : List (Table (Func Position))

namespace Store

/-- The variables of a scope. -/
def bindings (σ : Store) (scope : Scope) : Bindings :=
  σ.scopes.getD scope.bindings .empty

/-- The functions of a scope. -/
def functions (σ : Store) (scope : Scope) : Table (Func Position) :=
  σ.tables.getD scope.functions .empty

end Store

/-- Where an evaluation takes place. -/
structure Place where
  /-- The settings of the run. -/
  settings : Settings
  /-- The calls that are open, innermost first. -/
  calls : List Frame
  /-- The scope. -/
  scope : Scope
  /-- The scope of the top level. -/
  root : Scope

namespace Place

/-- The context of a place, with the functions of its scope. -/
def context (p : Place) (σ : Store) : Context :=
  ⟨p.settings.limits, p.settings.cancelAt, σ.functions p.scope, p.calls⟩

/-- The place in which the body of a function runs, in a scope of its own. -/
def enter (p : Place) (function : Bytes) (site : Position) (inner : Scope) : Place :=
  { p with calls := ⟨function, site⟩ :: p.calls, scope := inner }

end Place

/-- An evaluation that reads scopes in a store and writes to them. -/
def Stored (α : Type) : Type :=
  Store → Meter → Outcome α × Store

namespace Stored

/-- A result at no cost. -/
protected def pure (a : α) : Stored α := fun σ m =>
  (.done a m, σ)

/-- One evaluation, then another that depends on its result. -/
protected def bind (x : Stored α) (f : α → Stored β) : Stored β := fun σ m =>
  match x σ m with
  | (.done a m, σ) => f a σ m
  | (.stopped s m, σ) => (.stopped s m, σ)

instance : Monad Stored where
  pure := Stored.pure
  bind := Stored.bind

/-- What is in the store. -/
def look (f : Store → α) : Stored α := fun σ m =>
  (.done (f σ) m, σ)

/-- What an evaluation does in the context of a place. -/
def seeing (p : Place) (x : Context → Eval α) : Stored α := fun σ m =>
  (x (p.context σ) m, σ)

/-- Opens the scope of a call: it has no variables, and the functions of the top level, or none at
all when calls are isolated. -/
def openScope (p : Place) : Stored Scope := fun σ m =>
  if p.settings.limits.isolated then
    (.done ⟨σ.scopes.length, σ.tables.length⟩ m, ⟨σ.scopes ++ [.empty], σ.tables ++ [.empty]⟩)
  else (.done ⟨σ.scopes.length, p.root.functions⟩ m, ⟨σ.scopes ++ [.empty], σ.tables⟩)

/-- Binds a name in a scope. -/
def write (scope : Scope) (name : Bytes) (v : Value) : Stored Unit := fun σ m =>
  (.done () m, { σ with scopes := σ.scopes.modify scope.bindings (·.insert name v) })

/-- What to do with the call of a function, once there is a scope for it. -/
abbrev Caller := Bytes → Position → Func Position → Scope → Stored Value

/-! ### Running scripts with a store -/

section Evaluate

variable (caller : Caller) (p : Place)

mutual

/-- The value of an expression. -/
def evaluate : Expr Position → Stored Value
  | .var mark name => do
    seeing p Context.step
    let vars ← look (·.bindings p.scope)
    match vars.get? name with
    | some v => pure v
    | none => seeing p (·.fail (.undefinedVariable name) mark)
  | .bool _ b => do
    seeing p Context.step
    pure (.bool b)
  | .number _ x => do
    seeing p Context.step
    pure (.number x)
  | .text _ s => do
    seeing p Context.step
    pure (.text (Bytes.pack s))
  | .array _ elements => do
    seeing p Context.step
    let vs ← evaluateList elements
    pure (.array vs)
  | .binary mark op left right => do
    seeing p Context.step
    let v ← evaluate left
    let w ← evaluate right
    seeing p (·.lift mark (v.combine op w))
  | .call mark name args => do
    seeing p Context.step
    let functions ← look (·.functions p.scope)
    match functions.get? name with
    | none => seeing p (·.fail (.undefinedFunction name) mark)
    | some f =>
      if args.length = f.params.length then do
        let inner ← openScope p
        bindArguments inner f.params args
        caller name mark f inner
      else seeing p (·.fail (.functionArity name f.params.length args.length) mark)
  | .index _ object place => do
    seeing p Context.step
    let v ← evaluate object
    let w ← evaluate place
    match v.at? w with
    | .ok r => pure r
    | .error (.object fault) => seeing p (·.fail fault object.mark)
    | .error (.place fault) => seeing p (·.fail fault place.mark)
  | .member mark object property => do
    seeing p Context.step
    let v ← evaluate object
    seeing p (·.lift mark (v.member property))
  | .method mark object name args => do
    seeing p Context.step
    let v ← evaluate object
    let ws ← evaluateList args
    seeing p (·.lift mark (v.method name ws))

/-- The values of expressions, from left to right. -/
def evaluateList : List (Expr Position) → Stored (List Value)
  | [] => pure []
  | e :: es => do
    let v ← evaluate e
    let vs ← evaluateList es
    pure (v :: vs)

/-- Binds parameters in another scope, each as soon as the value of its argument is known. -/
def bindArguments (inner : Scope) : List Bytes → List (Expr Position) → Stored Unit
  | param :: params, e :: es => do
    let v ← evaluate e
    write inner param v
    bindArguments inner params es
  | [], _ | _ :: _, [] => pure ()

end

/-- Runs the clauses of a body in the scope of the place: the value returned if one is. -/
def runBody : List (Clause Position) → Stored (Option Value)
  | [] => pure none
  | .assign _ name value :: clauses => do
    seeing p Context.step
    let v ← evaluate caller p value
    write p.scope name v
    runBody clauses
  | .ret mark value :: _ => do
    seeing p Context.step
    if p.calls.isEmpty then seeing p (·.fail .returnOutside mark)
    else do
      let v ← evaluate caller p value
      pure (some v)

end Evaluate

/-- **Calls a function** in a scope that holds its arguments, when at most `room` further calls may
be opened. -/
def call : (room : Nat) → Place → Caller
  | 0, p, _, site, _, _ => seeing p (·.fail (.tooDeep p.settings.limits.depth) site)
  | room + 1, p, name, site, f, inner => do
    let inside := p.enter name site inner
    seeing inside fun ctx => noteCall ⟨name, ctx.calls.length⟩
    match ← runBody (call room inside) inside f.body with
    | some v => pure v
    | none => seeing inside (·.fail (.noReturn name) f.mark)

end Stored

/-! ### What is left of a store -/

/-- **A store extends another one** when everything is still where it was, unchanged. -/
structure Store.Extends (σ τ : Store) : Prop where
  scopes : ∀ {a : Nat} {vars}, σ.scopes[a]? = some vars → τ.scopes[a]? = some vars
  tables : ∀ {a : Nat} {functions}, σ.tables[a]? = some functions → τ.tables[a]? = some functions

namespace Store.Extends

variable {σ τ ρ : Store}

theorem refl (σ : Store) : σ.Extends σ :=
  ⟨id, id⟩

/-- A store that grows twice has grown. -/
theorem trans (h : σ.Extends τ) (h' : τ.Extends ρ) : σ.Extends ρ :=
  ⟨fun ha => h'.scopes (h.scopes ha), fun ha => h'.tables (h.tables ha)⟩

end Store.Extends

/-- **A store has a scope of its own** beyond another one, with certain variables and functions. -/
structure Store.Opens (σ τ : Store) (inner : Scope) (vars : Bindings)
    (functions : Table (Func Position)) : Prop where
  kept : σ.Extends τ
  fresh : σ.scopes[inner.bindings]? = none
  bindings : τ.scopes[inner.bindings]? = some vars
  functions : τ.tables[inner.functions]? = some functions

namespace Store.Opens

variable {σ τ ρ : Store} {inner : Scope} {vars : Bindings} {functions : Table (Func Position)}

theorem mono (h : σ.Opens τ inner vars functions) (hτ : τ.Extends ρ) :
    σ.Opens ρ inner vars functions :=
  ⟨h.kept.trans hτ, h.fresh, hτ.scopes h.bindings, hτ.tables h.functions⟩

/-- Writing to a scope of its own changes nothing that was there. -/
theorem write (h : σ.Opens τ inner vars functions) (name : Bytes) (v : Value) :
    σ.Opens { τ with scopes := τ.scopes.modify inner.bindings (·.insert name v) } inner
      (vars.insert name v) functions where
  kept.tables := h.kept.tables
  kept.scopes {a vars'} ha := by
    have hne : inner.bindings ≠ a := by
      rintro rfl
      cases h.fresh.symm.trans ha
    exact (List.getElem?_modify_ne _ _ hne).trans (h.kept.scopes ha)
  fresh := h.fresh
  bindings := by
    rw [List.getElem?_modify_eq, h.bindings]
    rfl
  functions := h.functions

end Store.Opens

/-! ### What a place shows -/

/-- **A place shows** a context, variables, and the functions of the top level, which the calls
share. -/
structure Place.Shows (p : Place) (σ : Store) (ctx : Context) (vars : Bindings)
    (shared : Table (Func Position)) : Prop where
  limits : p.settings.limits = ctx.limits
  cancelAt : p.settings.cancelAt = ctx.cancelAt
  calls : p.calls = ctx.calls
  bindings : σ.scopes[p.scope.bindings]? = some vars
  functions : σ.tables[p.scope.functions]? = some ctx.functions
  shared : σ.tables[p.root.functions]? = some shared

/-- The functions that a body finds. -/
def Context.inner (ctx : Context) (shared : Table (Func Position)) : Table (Func Position) :=
  if ctx.limits.isolated then .empty else shared

section Shows

variable {p : Place} {σ τ : Store} {ctx : Context} {vars : Bindings}
  {shared : Table (Func Position)}

namespace Place.Shows

theorem mono (h : p.Shows σ ctx vars shared) (hτ : σ.Extends τ) : p.Shows τ ctx vars shared where
  limits := h.limits
  cancelAt := h.cancelAt
  calls := h.calls
  bindings := hτ.scopes h.bindings
  functions := hτ.tables h.functions
  shared := hτ.tables h.shared

theorem bindings_eq (h : p.Shows σ ctx vars shared) : σ.bindings p.scope = vars := by
  rw [Store.bindings, List.getD_eq_getElem?_getD, h.bindings, Option.getD_some]

theorem functions_eq (h : p.Shows σ ctx vars shared) : σ.functions p.scope = ctx.functions := by
  rw [Store.functions, List.getD_eq_getElem?_getD, h.functions, Option.getD_some]

/-- What a place shows is its context. -/
theorem context_eq (h : p.Shows σ ctx vars shared) : p.context σ = ctx := by
  rw [Place.context, h.functions_eq, h.limits, h.cancelAt, h.calls]

/-- In a scope that is open for a call, its body is shown the functions that it may find. -/
theorem enter (h : p.Shows σ ctx vars shared) {inner : Scope} {own : Bindings}
    (hτ : σ.Opens τ inner own (ctx.inner shared)) (name : Bytes) (site : Position) :
    (p.enter name site inner).Shows τ ({ ctx with functions := shared }.enter name site) own
      shared where
  limits := h.limits
  cancelAt := h.cancelAt
  calls := by rw [Place.enter, Context.enter, h.calls]
  bindings := hτ.bindings
  functions := hτ.functions
  shared := hτ.kept.tables h.shared

/-- Opening a scope opens one. -/
theorem exists_openScope (h : p.Shows σ ctx vars shared) (m : Meter) :
    ∃ inner τ, σ.Opens τ inner .empty (ctx.inner shared) ∧
      Stored.openScope p σ m = (.done inner m, τ) := by
  -- a new address is behind all others, so nothing that there was is moved
  have hscopes : ∀ {a : Nat} {vars}, σ.scopes[a]? = some vars →
      (σ.scopes ++ [.empty])[a]? = some vars := by
    intro a vars ha
    rw [List.getElem?_append_left (List.getElem?_eq_some_iff.1 ha).1, ha]
  have htables : ∀ {a : Nat} {functions}, σ.tables[a]? = some functions →
      (σ.tables ++ [.empty])[a]? = some functions := by
    intro a functions ha
    rw [List.getElem?_append_left (List.getElem?_eq_some_iff.1 ha).1, ha]
  rw [Stored.openScope, h.limits, Context.inner]
  split
  · refine ⟨_, _, ⟨⟨hscopes, htables⟩, ?_, ?_, ?_⟩, rfl⟩
    · exact List.getElem?_eq_none (Nat.le_refl _)
    · exact List.getElem?_concat_length
    · exact List.getElem?_concat_length
  · refine ⟨_, ⟨_, _⟩, ⟨⟨hscopes, fun ha => ha⟩, ?_, ?_, ?_⟩, rfl⟩
    · exact List.getElem?_eq_none (Nat.le_refl _)
    · exact List.getElem?_concat_length
    · exact h.shared

end Place.Shows

end Shows

/-! ### Following an evaluation without a store -/

namespace Stored

variable {γ δ : Type}

theorem bind_of_done {x : Stored α} {σ τ : Store} {m n : Meter} {a : α}
    (h : x σ m = (.done a n, τ)) (f : α → Stored β) : (x >>= f) σ m = f a τ n := by
  simp only [Bind.bind, Stored.bind, h]

theorem bind_of_stopped {x : Stored α} {σ τ : Store} {m n : Meter} {s : Stop}
    (h : x σ m = (.stopped s n, τ)) (f : α → Stored β) :
    (x >>= f) σ m = (.stopped s n, τ) := by
  simp only [Bind.bind, Stored.bind, h]

/-- **An evaluation in a store follows one without**: where the place shows the context and the
variables, it has the same outcome, and leaves everything in the store as it was. -/
def Follows (p : Place) (ctx : Context) (vars : Bindings) (shared : Table (Func Position))
    (x : Stored α) (y : Eval α) : Prop :=
  ∀ σ, p.Shows σ ctx vars shared → ∀ m, ∃ τ, σ.Extends τ ∧ x σ m = (y m, τ)

/-- **An evaluation that fills a scope of its own**, starting from certain variables: it comes to
what the other one does, to which belong the variables that the scope has then. -/
structure Fills (σ : Store) (inner : Scope) (functions : Table (Func Position)) (vars : Bindings)
    (x : Stored α) (y : Eval γ) (own : γ → Bindings) (result : γ → α) : Prop where
  done : ∀ {τ m c n}, σ.Opens τ inner vars functions → y m = .done c n →
    ∃ ρ, σ.Opens ρ inner (own c) functions ∧ x τ m = (.done (result c) n, ρ)
  stopped : ∀ {τ m s n}, σ.Opens τ inner vars functions → y m = .stopped s n →
    ∃ ρ, σ.Extends ρ ∧ x τ m = (.stopped s n, ρ)

section Follows

variable {p : Place} {ctx : Context} {vars : Bindings} {shared : Table (Func Position)}
  {x : Stored α} {y : Eval α}

namespace Follows

protected theorem pure (a : α) : Follows p ctx vars shared (pure a) (pure a) :=
  fun σ _ _ => ⟨σ, .refl σ, rfl⟩

/-- One evaluation after another follows one after another, from the store that the first one has
left. -/
protected theorem bind {f : α → Stored β} {g : α → Eval β} (hx : Follows p ctx vars shared x y)
    (hf : ∀ a, Follows p ctx vars shared (f a) (g a)) :
    Follows p ctx vars shared (x >>= f) (y >>= g) := by
  intro σ hσ m
  obtain ⟨τ, hτ, hxm⟩ := hx σ hσ m
  rcases hy : y m with ⟨a, n⟩ | ⟨s, n⟩
  · rw [hy] at hxm
    obtain ⟨ρ, hρ, hfa⟩ := hf a τ (hσ.mono hτ) n
    exact ⟨ρ, hτ.trans hρ, by rw [bind_of_done hxm, Eval.bind_of_done hy, hfa]⟩
  · rw [hy] at hxm
    exact ⟨τ, hτ, by rw [bind_of_stopped hxm, Eval.bind_of_stopped hy]⟩

/-- What is seen from a place is the context that it shows. -/
theorem seeing (y : Context → Eval α) : Follows p ctx vars shared (seeing p y) (y ctx) :=
  fun σ hσ m => ⟨σ, .refl σ, by rw [Stored.seeing, hσ.context_eq]⟩

theorem bindings {f : Bindings → Stored α} (h : Follows p ctx vars shared (f vars) y) :
    Follows p ctx vars shared (look (·.bindings p.scope) >>= f) y := by
  intro σ hσ m
  obtain ⟨τ, hτ, hf⟩ := h σ hσ m
  refine ⟨τ, hτ, ?_⟩
  rw [← hf, ← hσ.bindings_eq]
  rfl

/-- Looking the functions up is seeing those of the context. -/
theorem functions {f : Table (Func Position) → Stored α}
    (h : Follows p ctx vars shared (f ctx.functions) y) :
    Follows p ctx vars shared (look (·.functions p.scope) >>= f) y := by
  intro σ hσ m
  obtain ⟨τ, hτ, hf⟩ := h σ hσ m
  refine ⟨τ, hτ, ?_⟩
  rw [← hf, ← hσ.functions_eq]
  rfl

/-- It is enough to follow with a scope for the call opened already. -/
theorem openScope {f : Scope → Stored α}
    (h : ∀ {σ τ inner}, p.Shows σ ctx vars shared → σ.Opens τ inner .empty (ctx.inner shared) →
      ∀ m, ∃ ρ, σ.Extends ρ ∧ f inner τ m = (y m, ρ)) :
    Follows p ctx vars shared (openScope p >>= f) y := by
  intro σ hσ m
  obtain ⟨inner, τ, hτ, hopen⟩ := hσ.exists_openScope m
  rw [bind_of_done hopen]
  exact h hσ hτ m

end Follows

/-! ### Filling a scope -/

namespace Fills

variable {σ : Store} {inner : Scope} {functions : Table (Func Position)} {own : γ → Bindings}
  {result : γ → α}

protected theorem pure {c : γ} {a : α} (hown : own c = vars) (hresult : result c = a) :
    Fills σ inner functions vars (pure a) (pure c) own result where
  done {τ m c' n} hτ hc := by
    cases hc
    exact ⟨τ, hown ▸ hτ, hresult ▸ rfl⟩
  stopped _ hc := by cases hc

/-- Parameters are filled however the values are kept in the meantime. -/
theorem map {y : Eval γ} {own : δ → Bindings} {result : δ → α} (k : γ → δ)
    (h : Fills σ inner functions vars x y (own ∘ k) (result ∘ k)) :
    Fills σ inner functions vars x (y >>= fun c => pure (k c)) own result where
  done hτ hc := by
    obtain ⟨c, _, hy, hc⟩ := Eval.bind_eq_done_iff.1 hc
    cases hc
    exact h.done hτ hy
  stopped {τ m s n} hτ hs := by
    rcases hy : y m with ⟨c, n'⟩ | ⟨s', n'⟩
    · rw [Eval.bind_of_done hy] at hs
      cases hs
    · rw [Eval.bind_of_stopped hy] at hs
      cases hs
      exact h.stopped hτ hy

/-- What leaves all scopes as they were may come before. -/
theorem bind {x : Stored β} {y : Eval β} {f : β → Stored α} {g : β → Eval γ}
    (hx : ∀ {τ}, σ.Opens τ inner vars functions → ∀ m, ∃ ρ, τ.Extends ρ ∧ x τ m = (y m, ρ))
    (hf : ∀ b, Fills σ inner functions vars (f b) (g b) own result) :
    Fills σ inner functions vars (x >>= f) (y >>= g) own result where
  done {τ m c n} hτ hc := by
    obtain ⟨b, n', hy, hc⟩ := Eval.bind_eq_done_iff.1 hc
    obtain ⟨ρ, hρ, hxm⟩ := hx hτ m
    rw [hy] at hxm
    rw [bind_of_done hxm]
    exact (hf b).done (hτ.mono hρ) hc
  stopped {τ m s n} hτ hs := by
    obtain ⟨ρ, hρ, hxm⟩ := hx hτ m
    rcases hy : y m with ⟨b, n'⟩ | ⟨s', n'⟩
    · rw [hy] at hxm
      rw [Eval.bind_of_done hy] at hs
      rw [bind_of_done hxm]
      exact (hf b).stopped (hτ.mono hρ) hs
    · rw [hy] at hxm
      rw [Eval.bind_of_stopped hy] at hs
      cases hs
      exact ⟨ρ, hτ.kept.trans hρ, bind_of_stopped hxm f⟩

/-- And so may a binding in the scope. -/
theorem write {name : Bytes} {v : Value} {f : Unit → Stored α} {y : Eval γ}
    (h : Fills σ inner functions (vars.insert name v) (f ()) y own result) :
    Fills σ inner functions vars (write inner name v >>= f) y own result where
  done hτ hc := h.done (hτ.write name v) hc
  stopped hτ hs := h.stopped (hτ.write name v) hs

/-- Once its scope is filled, an evaluation goes on and leaves what was there before. -/
theorem ends {y : Eval γ} {f : α → Stored β} {g : γ → Eval β}
    (h : Fills σ inner functions vars x y own result)
    (hf : ∀ {c τ}, σ.Opens τ inner (own c) functions → ∀ n, ∃ ρ, σ.Extends ρ ∧
      f (result c) τ n = (g c n, ρ))
    {τ : Store} (hτ : σ.Opens τ inner vars functions) (m : Meter) :
    ∃ ρ, σ.Extends ρ ∧ (x >>= f) τ m = ((y >>= g) m, ρ) := by
  rcases hy : y m with ⟨c, n⟩ | ⟨s, n⟩
  · obtain ⟨ρ, hρ, hx⟩ := h.done hτ hy
    rw [bind_of_done hx, Eval.bind_of_done hy]
    exact hf hρ n
  · obtain ⟨ρ, hρ, hx⟩ := h.stopped hτ hy
    rw [bind_of_stopped hx, Eval.bind_of_stopped hy]
    exact ⟨ρ, hρ, rfl⟩

end Fills

/-- **Calls follow** in scopes that hold their arguments. -/
structure CallersFollow (p : Place) (ctx : Context) (shared : Table (Func Position))
    (stored : Caller) (caller : Scriptlet.Caller) : Prop where
  ends : ∀ {σ τ vars inner name f} site vs, ctx.functions.get? name = some f →
    p.Shows σ ctx vars shared →
    σ.Opens τ inner (Table.empty.insertAll (f.params.zip vs)) (ctx.inner shared) →
    ∀ m, ∃ ρ, σ.Extends ρ ∧ stored name site f inner τ m = (caller name site f vs m, ρ)

/-! ### Expressions and bodies -/

section Bodies

variable {stored : Caller} {caller : Scriptlet.Caller}

theorem follows_evaluateList {es : List (Expr Position)}
    (h : ∀ e ∈ es, Follows p ctx vars shared (evaluate stored p e)
      (Scriptlet.evaluate caller ctx vars e)) :
    Follows p ctx vars shared (evaluateList stored p es)
      (Scriptlet.evaluateList caller ctx vars es) := by
  induction es with
  | nil =>
    rw [evaluateList, Scriptlet.evaluateList]
    exact .pure _
  | cons e es ih =>
    rw [evaluateList, Scriptlet.evaluateList]
    refine (h e List.mem_cons_self).bind fun v => ?_
    exact (ih fun x hx => h x (List.mem_cons_of_mem e hx)).bind fun vs => .pure _

/-- **Binding parameters** to arguments that are evaluated elsewhere. -/
theorem fills_bindArguments {σ : Store} {inner : Scope} (hσ : p.Shows σ ctx vars shared)
    {es : List (Expr Position)}
    (h : ∀ e ∈ es, Follows p ctx vars shared (evaluate stored p e)
      (Scriptlet.evaluate caller ctx vars e)) {params : List Bytes}
    (hlength : es.length = params.length) (own : Bindings) :
    Fills σ inner (ctx.inner shared) own (bindArguments stored p inner params es)
      (Scriptlet.evaluateList caller ctx vars es) (fun vs => own.insertAll (params.zip vs))
      fun _ => () := by
  induction es generalizing params own with
  | nil =>
    obtain rfl := List.length_eq_zero_iff.1 hlength.symm
    rw [bindArguments, Scriptlet.evaluateList]
    exact .pure rfl rfl
  | cons e es ih =>
    rcases params with _ | ⟨param, params⟩
    · cases hlength
    · rw [bindArguments, Scriptlet.evaluateList]
      refine .bind (fun hτ => h e List.mem_cons_self _ (hσ.mono hτ.kept)) fun v => ?_
      -- the value goes into the new scope before the next argument is evaluated
      refine .map (v :: ·) (.write ?_)
      exact ih (fun x hx => h x (List.mem_cons_of_mem e hx)) (Nat.succ.inj hlength) _

variable (hcallers : CallersFollow p ctx shared stored caller)

include hcallers

/-- **Evaluating an expression in a store** follows evaluating it without. -/
theorem follows_evaluate (e : Expr Position) :
    Follows p ctx vars shared (evaluate stored p e) (Scriptlet.evaluate caller ctx vars e) := by
  induction e with
  | var mark name =>
    rw [evaluate, Scriptlet.evaluate]
    refine (Follows.seeing _).bind fun _ => .bindings ?_
    rcases vars.get? name with _ | v
    · exact .seeing _
    · exact .pure v
  | bool | number | text =>
    rw [evaluate, Scriptlet.evaluate]
    exact (Follows.seeing _).bind fun _ => .pure _
  | array mark elements ih =>
    rw [evaluate, Scriptlet.evaluate]
    refine (Follows.seeing _).bind fun _ => ?_
    exact (follows_evaluateList ih).bind fun vs => .pure _
  | binary mark op left right ihl ihr =>
    rw [evaluate, Scriptlet.evaluate]
    refine (Follows.seeing _).bind fun _ => ?_
    exact ihl.bind fun v => ihr.bind fun w => .seeing _
  | call mark name args ih =>
    rw [evaluate, Scriptlet.evaluate]
    refine (Follows.seeing _).bind fun _ => .functions ?_
    rcases hget : ctx.functions.get? name with _ | f
    · exact .seeing _
    · dsimp only
      split
      · rename_i hlength
        -- the scope of the call is opened first, and its arguments are written into it one by one
        refine .openScope fun {σ τ inner} hσ hτ m => ?_
        refine (fills_bindArguments hσ ih hlength .empty).ends (fun {vs ρ} hρ n => ?_) hτ m
        exact hcallers.ends mark vs hget hσ hρ n
      · exact .seeing _
  | index mark object place iho ihp =>
    rw [evaluate, Scriptlet.evaluate]
    refine (Follows.seeing _).bind fun _ => iho.bind fun v => ihp.bind fun w => ?_
    rcases v.at? w with (fault | fault) | r
    · exact .seeing _
    · exact .seeing _
    · exact .pure r
  | member mark object property iho =>
    rw [evaluate, Scriptlet.evaluate]
    refine (Follows.seeing _).bind fun _ => iho.bind fun v => .seeing _
  | method mark object name args iho ih =>
    rw [evaluate, Scriptlet.evaluate]
    refine (Follows.seeing _).bind fun _ => iho.bind fun v => ?_
    exact (follows_evaluateList ih).bind fun ws => .seeing _

/-- **Running a body** fills the scope in which it runs. -/
theorem fills_runBody {σ : Store} {functions : Table (Func Position)}
    (hcalls : p.calls = ctx.calls) (hopen : ctx.calls ≠ [])
    (hshows : ∀ {τ own}, σ.Opens τ p.scope own functions → p.Shows τ ctx own shared)
    (body : List (Clause Position)) (own : Bindings) :
    Fills σ p.scope functions own (runBody stored p body) (Scriptlet.runBody caller ctx body own)
      Prod.fst Prod.snd := by
  -- steps and expressions leave the scope of the body as it is; assignments write into it
  have hseeing : ∀ {own : Bindings} {τ : Store}, σ.Opens τ p.scope own functions → ∀ m, ∃ ρ,
      τ.Extends ρ ∧ seeing p Context.step τ m = (ctx.step m, ρ) :=
    fun hτ => Follows.seeing Context.step _ (hshows hτ)
  have hvalue : ∀ {own : Bindings} {τ : Store} (e : Expr Position),
      σ.Opens τ p.scope own functions → ∀ m, ∃ ρ, τ.Extends ρ ∧
        evaluate stored p e τ m = (Scriptlet.evaluate caller ctx own e m, ρ) :=
    fun e hτ => follows_evaluate hcallers e _ (hshows hτ)
  induction body generalizing own with
  | nil => exact .pure rfl rfl
  | cons c body ih =>
    cases c with
    | assign mark name value =>
      rw [runBody, Scriptlet.runBody]
      exact .bind hseeing fun _ => .bind (hvalue value) fun v => .write (ih _)
    | ret mark value =>
      rw [runBody, Scriptlet.runBody]
      rw [hcalls, List.isEmpty_eq_false_iff.2 hopen]
      exact .bind hseeing fun _ => .bind (hvalue value) fun v => .pure rfl rfl

end Bodies

/-- It makes no difference to calls in a body whether they share the functions of the top level or
those of the body: these are the same, or there are none. -/
theorem CallersFollow.of_inner {stored : Caller} {make : Context → Scriptlet.Caller}
    (hfunctions : ctx.functions = ctx.inner shared)
    (h : CallersFollow p ctx shared stored (make { ctx with functions := shared })) :
    CallersFollow p ctx shared stored (make ctx) := by
  rw [Context.inner] at hfunctions
  split at hfunctions
  · refine ⟨fun site vs hget => ?_⟩
    rw [hfunctions, Table.get?_empty] at hget
    cases hget
  · subst hfunctions
    exact h

/-- **Calling a function in a store** follows calling it without. -/
theorem callersFollow_call {room : Nat} (hroom : room = ctx.limits.depth - ctx.calls.length) :
    CallersFollow p ctx shared (call room p)
      (Scriptlet.call room { ctx with functions := shared }) := by
  induction room generalizing p ctx with
  | zero =>
    refine ⟨fun {σ τ vars inner name f} site vs _ hσ hτ m => ⟨τ, hτ.kept, ?_⟩⟩
    rw [call, Scriptlet.call, seeing, (hσ.mono hτ.kept).context_eq, hσ.limits]
    rfl
  | succ room ih =>
    refine ⟨fun {σ τ vars inner name f} site vs _ hσ hτ m => ?_⟩
    let body := { ctx with functions := shared }.enter name site
    have hdepth : ctx.limits.depth - room = body.calls.length := by
      have hlength : body.calls.length = ctx.calls.length + 1 := rfl
      omega
    -- inside the body there is room for one call less
    have hcallers : CallersFollow (p.enter name site inner) body shared
        (call room (p.enter name site inner)) (Scriptlet.call room body) := by
      refine .of_inner rfl (ih ?_)
      have hlimits : body.limits.depth = ctx.limits.depth := rfl
      omega
    have hshows := fun {τ own} (hτ : σ.Opens τ inner own (ctx.inner shared)) =>
      hσ.enter hτ name site
    have hbody := fills_runBody hcallers (hshows hτ).calls (List.cons_ne_nil _ _) hshows f.body
      (Table.empty.insertAll (f.params.zip vs))
    have hnote : noteCall ⟨name, body.calls.length⟩ m =
        .done () { m with calls := ⟨name, body.calls.length⟩ :: m.calls } := rfl
    -- the depth that is noted is told by the place as it is by the context
    have hstored :
        seeing (p.enter name site inner) (fun ctx => noteCall ⟨name, ctx.calls.length⟩) τ m =
          (noteCall ⟨name, body.calls.length⟩ m, τ) := by
      rw [seeing, (hshows hτ).context_eq]
    rw [hnote] at hstored
    rw [call, Scriptlet.call, hdepth]
    dsimp only
    rw [bind_of_done hstored, Eval.bind_of_done hnote]
    refine hbody.ends (fun {c ρ} hρ n => ?_) hτ _
    rcases c with ⟨own, _ | v⟩
    · refine ⟨ρ, hρ.kept, ?_⟩
      dsimp only
      rw [seeing, (hshows hρ).context_eq]
    · exact ⟨ρ, hρ.kept, rfl⟩

end Follows

end Stored

/-! ### Evaluating at a place -/

/-- The way calls are made when those in bodies share the functions of the top level. -/
def Context.sharing (ctx : Context) (shared : Table (Func Position)) : Caller :=
  call (ctx.limits.depth - ctx.calls.length) { ctx with functions := shared }

namespace Place

/-- The way calls are made at a place. -/
def caller (p : Place) : Stored.Caller :=
  Stored.call (p.settings.limits.depth - p.calls.length) p

/-- **The value of an expression** at a place. -/
def evaluate (p : Place) (e : Expr Position) : Stored Value :=
  Stored.evaluate p.caller p e

/-- The values of expressions at a place. -/
def evaluateList (p : Place) (es : List (Expr Position)) : Stored (List Value) :=
  Stored.evaluateList p.caller p es

section Follows

variable {p : Place} {σ : Store} {ctx : Context} {vars : Bindings}
  {shared : Table (Func Position)}

theorem Shows.callersFollow (h : p.Shows σ ctx vars shared) :
    Stored.CallersFollow p ctx shared p.caller (ctx.sharing shared) := by
  rw [caller, h.limits, h.calls]
  exact Stored.callersFollow_call rfl

/-- **An expression at a place** has the outcome that it has with the variables and functions that
are shown there, and leaves everything in the store as it was. -/
theorem Shows.evaluate (h : p.Shows σ ctx vars shared) (e : Expr Position) (m : Meter) :
    ∃ τ, σ.Extends τ ∧
      p.evaluate e σ m = (Scriptlet.evaluate (ctx.sharing shared) ctx vars e m, τ) :=
  Stored.follows_evaluate h.callersFollow e σ h m

/-- **The values of expressions** at a place are those in its context. -/
theorem Shows.evaluateList (h : p.Shows σ ctx vars shared) (es : List (Expr Position))
    (m : Meter) :
    ∃ τ, σ.Extends τ ∧
      p.evaluateList es σ m = (Scriptlet.evaluateList (ctx.sharing shared) ctx vars es m, τ) :=
  Stored.follows_evaluateList (fun e _ => Stored.follows_evaluate h.callersFollow e) σ h m

end Follows

end Place

end Scriptlet
