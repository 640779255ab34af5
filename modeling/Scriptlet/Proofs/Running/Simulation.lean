import Mathlib.Data.List.Forall2
import Scriptlet.Proofs.Tree
import Scriptlet.Run.Eval

/-!
# Comparing two runs

Much of what can be said about a run compares it with another one: with other limits, with other
marks in the script, with an interruption or without. The two runs then go through the same code
in **lockstep**, and what has to be shown of them is that some relation survives. It has to allow
results at no cost, one thing after another, a step, and a failure; and but for calls this is all,
because evaluation is made of nothing else (`Lockstep.evaluate`, `Lockstep.round`).

A call makes a note of itself and goes one level deeper. Where the two runs may go equally deep, a
relation that also allows the notes gets through all calls (`Simulation.call`), and is called a
**simulation**. Where one of them may go deeper, what becomes of calls has to be shown for the
relation at hand.

The scripts that the two runs execute match: they are the same but for their marks, and a parameter
says how the marks are related. What runs depend on besides is related accordingly: the functions
that can be called match, and the open calls are those of the same functions at related marks
(`Fits`). Variables have the same values on both sides.

Loops are the one thing left open. How a relation gets through a loop depends on how it deals with
runs that never end, so the last theorem (`Lockstep.runStatements`) takes it as a hypothesis;
it even lets the two sides run their loops in different ways.
-/

namespace Scriptlet

/-! ### Matching tables -/

/-- Two tables bind the same names, to related values. -/
def Table.Matches {α β : Type} (R : α → β → Prop) (t : Table α) (t' : Table β) : Prop :=
  List.Forall₂ (fun e e' => e.1 = e'.1 ∧ R e.2 e'.2) t.entries t'.entries

namespace Table

variable {α β : Type} {R : α → β → Prop} {t : Table α} {t' : Table β}

theorem matches_empty : Matches R (empty : Table α) (empty : Table β) :=
  List.Forall₂.nil

/-- Matching tables have the same names. -/
theorem Matches.names_eq (h : t.Matches R t') : t.names = t'.names := by
  have hentries : ∀ {es : List (Bytes × α)} {es' : List (Bytes × β)},
      List.Forall₂ (fun e e' => e.1 = e'.1 ∧ R e.2 e'.2) es es' →
      es.map Prod.fst = es'.map Prod.fst := by
    intro es es' h
    induction h with
    | nil => rfl
    | cons he _ ih => rw [List.map_cons, List.map_cons, he.1, ih]
  exact hentries h

/-- Look-ups in matching tables give related values, or nothing on both sides. -/
theorem Matches.get? (h : t.Matches R t') (name : Bytes) :
    (t.get? name = none ∧ t'.get? name = none) ∨
      ∃ a b, t.get? name = some a ∧ t'.get? name = some b ∧ R a b := by
  have hentries : ∀ {es : List (Bytes × α)} {es' : List (Bytes × β)},
      List.Forall₂ (fun e e' => e.1 = e'.1 ∧ R e.2 e'.2) es es' →
      (find? name es = none ∧ find? name es' = none) ∨
        ∃ a b, find? name es = some a ∧ find? name es' = some b ∧ R a b := by
    intro es es' h
    induction h with
    | nil => exact Or.inl ⟨rfl, rfl⟩
    | @cons e e' es es' he _ ih =>
      obtain ⟨n, a⟩ := e
      obtain ⟨n', b⟩ := e'
      obtain ⟨rfl, hR⟩ : n = n' ∧ R a b := he
      by_cases hn : n = name
      · exact Or.inr ⟨a, b, if_pos hn, if_pos hn, hR⟩
      · rw [find?, find?, if_neg hn, if_neg hn]
        exact ih
  exact hentries h

/-- Matching tables match still with matching entries put into both. -/
theorem Matches.insert (h : t.Matches R t') (name : Bytes) {a : α} {b : β} (hR : R a b) :
    (t.insert name a).Matches R (t'.insert name b) := by
  have hentries : ∀ {es : List (Bytes × α)} {es' : List (Bytes × β)},
      List.Forall₂ (fun e e' => e.1 = e'.1 ∧ R e.2 e'.2) es es' →
      List.Forall₂ (fun e e' => e.1 = e'.1 ∧ R e.2 e'.2) (place name a es) (place name b es') := by
    intro es es' h
    induction h with
    | nil => exact .cons ⟨rfl, hR⟩ .nil
    | @cons e e' es es' he hes ih =>
      obtain ⟨n, c⟩ := e
      obtain ⟨n', d⟩ := e'
      obtain ⟨rfl, hcd⟩ : n = n' ∧ R c d := he
      rw [place, place]
      split
      · exact .cons ⟨rfl, hR⟩ (.cons ⟨rfl, hcd⟩ hes)
      · exact .cons ⟨rfl, hR⟩ hes
      · exact .cons ⟨rfl, hcd⟩ ih
  exact hentries h

theorem matches_refl {R : α → α → Prop} (hR : ∀ a, R a a) (t : Table α) : t.Matches R t :=
  List.forall₂_same.2 fun e _ => ⟨rfl, hR e.2⟩

theorem eq_of_matches {t t' : Table α} (h : t.Matches Eq t') : t = t' := by
  obtain ⟨es, hs⟩ := t
  obtain ⟨es', hs'⟩ := t'
  have hentries : es = es' := by
    refine List.forall₂_eq_eq_eq ▸ List.Forall₂.imp ?_ h
    rintro ⟨n, a⟩ ⟨n', a'⟩ ⟨hn, ha⟩
    exact Prod.ext hn ha
  subst hentries
  rfl

end Table

/-! ### Related contexts -/

section Related

variable (P : Position → Position → Prop) (l r : Settings)

/-- Two open calls are of the same function, at related positions. -/
def Frame.Matches (f f' : Frame) : Prop :=
  f.function = f'.function ∧ P f.position f'.position

/-- **Two contexts fit together**: they belong to the two runs, the functions that can be called
match, and so do the calls that are open. -/
structure Fits (ctx ctx' : Context) : Prop where
  left_limits : ctx.limits = l.limits
  left_cancelAt : ctx.cancelAt = l.cancelAt
  right_limits : ctx'.limits = r.limits
  right_cancelAt : ctx'.cancelAt = r.cancelAt
  functions : ctx.functions.Matches (Func.Matches P) ctx'.functions
  calls : List.Forall₂ (Frame.Matches P) ctx.calls ctx'.calls

/-- Two worlds have the same variables, and functions that match. -/
structure World.Matches (w w' : World) : Prop where
  bindings : w.bindings = w'.bindings
  functions : w.functions.Matches (Func.Matches P) w'.functions

end Related

theorem World.matches_empty (P : Position → Position → Prop) :
    World.Matches P World.empty World.empty :=
  ⟨rfl, Table.matches_empty⟩

theorem World.matches_refl (w : World) : World.Matches Eq w w :=
  ⟨rfl, Table.matches_refl Func.matches_refl w.functions⟩

theorem World.eq_of_matches {w w' : World} (h : World.Matches Eq w w') : w = w' := by
  obtain ⟨bindings, functions⟩ := w
  obtain ⟨bindings', functions'⟩ := w'
  obtain ⟨rfl, hf⟩ := h
  have heq : functions = functions' :=
    Table.eq_of_matches (List.Forall₂.imp (fun _ _ he => ⟨he.1, Func.eq_of_matches he.2⟩) hf)
  subst heq
  rfl

/-- Matching worlds give contexts that fit together on the top level. -/
theorem World.Matches.fits {P : Position → Position → Prop} {w w' : World}
    (hw : World.Matches P w w') (l r : Settings) : Fits P l r (l.context w) (r.context w') :=
  ⟨rfl, rfl, rfl, rfl, hw.functions, .nil⟩

/-! ### Runs in lockstep -/

/-- **A relation between runs in lockstep**, under two settings, of scripts whose marks are related
by `P`. -/
structure Lockstep (P : Position → Position → Prop) (l r : Settings) where
  /-- The relation between evaluations, for a relation between their results. -/
  Rel {α : Type} (R : α → α → Prop) (x y : Eval α) : Prop
  /-- Both runs isolate functions, or neither does. -/
  isolated : l.limits.isolated = r.limits.isolated
  pure {α : Type} {R : α → α → Prop} {a b : α} : R a b → Rel R (Eval.pure a) (Eval.pure b)
  bind {α β : Type} {R : α → α → Prop} {Q : β → β → Prop} {x y : Eval α} {f g : α → Eval β} :
    Rel R x y → (∀ a b, R a b → Rel Q (f a) (g b)) → Rel Q (x >>= f) (y >>= g)
  step {ctx ctx' : Context} : Fits P l r ctx ctx' → Rel Eq ctx.step ctx'.step
  fail {α : Type} {R : α → α → Prop} {ctx ctx' : Context} {p p' : Position} (fault : Fault) :
    Fits P l r ctx ctx' → P p p' → Rel R (ctx.fail fault p) (ctx'.fail fault p')

namespace Lockstep

variable {P : Position → Position → Prop} {l r : Settings} (S : Lockstep P l r)
  {ctx ctx' : Context}

/-- Two ways to make calls are related when they are on matching functions. -/
def Callers (caller caller' : Caller) : Prop :=
  ∀ (name : Bytes) (site : MarkPair P) (f : Func (MarkPair P)) (vs : List Value),
    S.Rel Eq (caller name site.left (f.map MarkPair.left) vs)
      (caller' name site.right (f.map MarkPair.right) vs)

/-- One evaluation after another, where the first gives the same result on both sides. -/
theorem bind_eq {α β : Type} {Q : β → β → Prop} {x y : Eval α} {f g : α → Eval β}
    (hxy : S.Rel Eq x y) (hfg : ∀ a, S.Rel Q (f a) (g a)) :
    S.Rel Q (x >>= f) (y >>= g) :=
  S.bind hxy fun a _ h => h ▸ hfg a

theorem lift (hctx : Fits P l r ctx ctx') (mark : MarkPair P) (o : Except Fault Value) :
    S.Rel Eq (ctx.lift mark.left o) (ctx'.lift mark.right o) := by
  cases o with
  | ok v => exact S.pure rfl
  | error fault => exact S.fail fault hctx mark.2

/-! ### Expressions -/

section Expressions

variable {S} {caller caller' : Caller}

theorem evaluateList_of_forall (vars : Bindings) (es : List (Expr (MarkPair P)))
    (h : ∀ e ∈ es, S.Rel Eq (evaluate caller ctx vars (e.map MarkPair.left))
      (evaluate caller' ctx' vars (e.map MarkPair.right))) :
    S.Rel Eq (evaluateList caller ctx vars (Expr.mapList MarkPair.left es))
      (evaluateList caller' ctx' vars (Expr.mapList MarkPair.right es)) := by
  induction es with
  | nil => exact S.pure rfl
  | cons e es ih =>
    rw [Expr.mapList, Expr.mapList, evaluateList, evaluateList]
    refine S.bind_eq (h e List.mem_cons_self) fun v => ?_
    refine S.bind_eq (ih fun x hx => h x (List.mem_cons_of_mem e hx)) fun vs => ?_
    exact S.pure rfl

variable (hctx : Fits P l r ctx ctx') (hcaller : S.Callers caller caller')

include hctx hcaller

/-- **Evaluating an expression keeps in step.** -/
theorem evaluate (vars : Bindings) (e : Expr (MarkPair P)) :
    S.Rel Eq (evaluate caller ctx vars (e.map MarkPair.left))
      (evaluate caller' ctx' vars (e.map MarkPair.right)) := by
  induction e with
  | var mark name =>
    rw [Expr.map, Expr.map, Scriptlet.evaluate, Scriptlet.evaluate]
    refine S.bind_eq (S.step hctx) fun _ => ?_
    cases vars.get? name with
    | none => exact S.fail _ hctx mark.2
    | some v => exact S.pure rfl
  | bool mark value =>
    exact S.bind_eq (S.step hctx) fun _ => S.pure rfl
  | number mark value =>
    exact S.bind_eq (S.step hctx) fun _ => S.pure rfl
  | text mark value =>
    exact S.bind_eq (S.step hctx) fun _ => S.pure rfl
  | array mark elements ih =>
    rw [Expr.map, Expr.map, Scriptlet.evaluate, Scriptlet.evaluate]
    refine S.bind_eq (S.step hctx) fun _ => ?_
    exact S.bind_eq (evaluateList_of_forall vars elements ih) fun vs => S.pure rfl
  | binary mark op left right ihl ihr =>
    rw [Expr.map, Expr.map, Scriptlet.evaluate, Scriptlet.evaluate]
    refine S.bind_eq (S.step hctx) fun _ => S.bind_eq ihl fun v => S.bind_eq ihr fun w => ?_
    exact S.lift hctx mark _
  | call mark name args ih =>
    rw [Expr.map, Expr.map, Scriptlet.evaluate, Scriptlet.evaluate]
    refine S.bind_eq (S.step hctx) fun _ => ?_
    rcases hctx.functions.get? name with ⟨hn, hn'⟩ | ⟨f, f', hf, hf', d, rfl, rfl⟩
    · rw [hn, hn']
      exact S.fail _ hctx mark.2
    · -- the functions match, so both sides count the same parameters
      simp only [hf, hf', Expr.mapList_eq_map, List.length_map, Func.map]
      split
      · rw [← Expr.mapList_eq_map, ← Expr.mapList_eq_map]
        exact S.bind_eq (evaluateList_of_forall vars args ih) fun vs => hcaller name mark d vs
      · exact S.fail _ hctx mark.2
  | index mark object place iho ihp =>
    rw [Expr.map, Expr.map, Scriptlet.evaluate, Scriptlet.evaluate]
    refine S.bind_eq (S.step hctx) fun _ => S.bind_eq iho fun v => S.bind_eq ihp fun w => ?_
    rcases v.at? w with (fault | fault) | u
    · -- the two faults of an index are reported at different parts
      exact S.fail fault hctx (by rw [Expr.mark_map, Expr.mark_map]; exact object.mark.2)
    · exact S.fail fault hctx (by rw [Expr.mark_map, Expr.mark_map]; exact place.mark.2)
    · exact S.pure rfl
  | member mark object property iho =>
    rw [Expr.map, Expr.map, Scriptlet.evaluate, Scriptlet.evaluate]
    refine S.bind_eq (S.step hctx) fun _ => S.bind_eq iho fun v => ?_
    exact S.lift hctx mark _
  | method mark object name args iho ih =>
    rw [Expr.map, Expr.map, Scriptlet.evaluate, Scriptlet.evaluate]
    refine S.bind_eq (S.step hctx) fun _ => S.bind_eq iho fun v => ?_
    refine S.bind_eq (evaluateList_of_forall vars args ih) fun ws => ?_
    exact S.lift hctx mark _

/-- Running a body keeps in step. -/
theorem runBody (cs : List (Clause (MarkPair P))) (vars : Bindings) :
    S.Rel Eq (runBody caller ctx (cs.map (Clause.map MarkPair.left)) vars)
      (runBody caller' ctx' (cs.map (Clause.map MarkPair.right)) vars) := by
  induction cs generalizing vars with
  | nil => exact S.pure rfl
  | cons c cs ih =>
    cases c with
    | assign mark name value =>
      refine S.bind_eq (S.step hctx) fun _ => ?_
      exact S.bind_eq (evaluate hctx hcaller vars value) fun v => ih (vars.insert name v)
    | ret mark value =>
      -- a return fails on the top level, which both sides are on or neither is
      have hempty : ctx.calls.isEmpty = ctx'.calls.isEmpty := by
        rw [Bool.eq_iff_iff, List.isEmpty_iff_length_eq_zero, List.isEmpty_iff_length_eq_zero,
          hctx.calls.length_eq]
      rw [List.map_cons, List.map_cons, Clause.map, Clause.map, Scriptlet.runBody,
        Scriptlet.runBody, hempty]
      refine S.bind_eq (S.step hctx) fun _ => ?_
      split
      · exact S.fail _ hctx mark.2
      · exact S.bind_eq (evaluate hctx hcaller vars value) fun v => S.pure rfl

end Expressions

/-! ### Inside a call -/

include S in
theorem fits_enter (hctx : Fits P l r ctx ctx') (name : Bytes) (site : MarkPair P) :
    Fits P l r (ctx.enter name site.left) (ctx'.enter name site.right) where
  left_limits := hctx.left_limits
  left_cancelAt := hctx.left_cancelAt
  right_limits := hctx.right_limits
  right_cancelAt := hctx.right_cancelAt
  functions := by
    have hisolated : ctx.limits.isolated = ctx'.limits.isolated := by
      rw [hctx.left_limits, hctx.right_limits, S.isolated]
    rw [Context.enter, Context.enter, hisolated]
    split
    · exact Table.matches_empty
    · exact hctx.functions
  calls := .cons ⟨rfl, site.2⟩ hctx.calls

/-! ### Statements -/

section Statements

variable {S} (hctx : Fits P l r ctx ctx') (hcaller : S.Callers ctx.caller ctx'.caller)

include hctx hcaller

theorem holds (vars : Bindings) (construct : Construct) (condition : Expr (MarkPair P)) :
    S.Rel Eq (holds ctx vars construct (condition.map MarkPair.left))
      (holds ctx' vars construct (condition.map MarkPair.right)) := by
  refine S.bind_eq (evaluate hctx hcaller vars condition) fun v => ?_
  have hfail : ∀ kind, S.Rel Eq
      (ctx.fail (α := Bool) (.condition construct kind) (condition.map MarkPair.left).mark)
      (ctx'.fail (.condition construct kind) (condition.map MarkPair.right).mark) := by
    intro kind
    rw [Expr.mark_map, Expr.mark_map]
    exact S.fail _ hctx condition.mark.2
  cases v with
  | bool b => exact S.pure rfl
  | invalid | number | text | array => exact hfail _

/-- One round of a loop keeps in step. -/
theorem round (condition : Expr (MarkPair P)) (body : List (Clause (MarkPair P)))
    (vars : Bindings) :
    S.Rel Eq
      (round ctx (condition.map MarkPair.left) (body.map (Clause.map MarkPair.left)) vars)
      (round ctx' (condition.map MarkPair.right) (body.map (Clause.map MarkPair.right)) vars) := by
  refine S.bind_eq (holds hctx hcaller vars .loop condition) fun b => ?_
  cases b with
  | false => exact S.pure rfl
  | true => exact S.bind_eq (runBody hctx hcaller body vars) fun p => S.pure rfl

end Statements

/-- Calls from the top level are related. -/
def Calling : Prop :=
  ∀ {ctx ctx' : Context}, Fits P l r ctx ctx' → ctx.calls = [] →
    S.Callers ctx.caller ctx'.caller

/-- Two ways to run loops on the top level are related when they are on matching loops. -/
def Loopers (looper looper' : Looper) : Prop :=
  ∀ {ctx ctx' : Context}, Fits P l r ctx ctx' → ctx.calls = [] →
    ∀ (condition : Expr (MarkPair P)) (body : List (Clause (MarkPair P))) (vars : Bindings),
      S.Rel Eq
        (looper ctx (condition.map MarkPair.left) (body.map (Clause.map MarkPair.left)) vars)
        (looper' ctx' (condition.map MarkPair.right) (body.map (Clause.map MarkPair.right)) vars)

section Run

variable {S} {looper looper' : Looper} (hcalling : S.Calling) (hlooper : S.Loopers looper looper')

include hcalling hlooper

/-- **Statements that match do the same**, in worlds that match. -/
theorem runStatement {w w' : World} (hw : World.Matches P w w') (s : Stmt (MarkPair P)) :
    S.Rel (World.Matches P) (runStatement looper l w (s.map MarkPair.left))
      (runStatement looper' r w' (s.map MarkPair.right)) := by
  obtain ⟨bindings, functions⟩ := w
  obtain ⟨bindings', functions'⟩ := w'
  obtain rfl : bindings = bindings' := hw.bindings
  have hctx := hw.fits l r
  have hcaller := hcalling hctx rfl
  cases s with
  | clause c =>
    exact S.bind_eq (runBody hctx hcaller [c] bindings) fun p => S.pure ⟨rfl, hw.functions⟩
  | func name f =>
    refine S.bind_eq (S.step hctx) fun _ => S.pure ⟨rfl, ?_⟩
    exact hw.functions.insert name ⟨f, rfl, rfl⟩
  | cond mark condition body =>
    refine S.bind_eq (S.step hctx) fun _ => ?_
    refine S.bind_eq (holds hctx hcaller bindings .cond condition) fun b => ?_
    cases b with
    | false => exact S.pure hw
    | true =>
      exact S.bind_eq (runBody hctx hcaller body bindings) fun p => S.pure ⟨rfl, hw.functions⟩
  | loop mark condition body =>
    refine S.bind_eq (S.step hctx) fun _ => ?_
    exact S.bind_eq (hlooper hctx rfl condition body bindings) fun vars =>
      S.pure ⟨rfl, hw.functions⟩

/-- **Running statements keeps in step**, as soon as calls and loops do. -/
theorem runStatements {w w' : World} (hw : World.Matches P w w') {ss ss' : List (Stmt Position)}
    (hss : List.Forall₂ (Stmt.Matches P) ss ss') :
    S.Rel (World.Matches P) (runStatements looper l w ss) (runStatements looper' r w' ss') := by
  induction hss generalizing w w' with
  | nil => exact S.pure hw
  | cons hs _ ih =>
    obtain ⟨d, rfl, rfl⟩ := hs
    exact S.bind (runStatement hcalling hlooper hw d) fun v v' hv => ih hv

end Run

end Lockstep

/-! ### Simulations -/

/-- **A simulation** between runs that may open the same number of calls: a relation between runs
in lockstep which allows calls to be noted. -/
structure Simulation (P : Position → Position → Prop) (l r : Settings) extends Lockstep P l r where
  /-- Both runs may open the same number of calls. -/
  depth : l.limits.depth = r.limits.depth
  noteCall (record : CallRecord) : Rel Eq (noteCall record) (noteCall record)

namespace Simulation

variable {P : Position → Position → Prop} {l r : Settings} (S : Simulation P l r)
  {ctx ctx' : Context}

include S in
theorem depth_eq (hctx : Fits P l r ctx ctx') : ctx.limits.depth = ctx'.limits.depth := by
  rw [hctx.left_limits, hctx.right_limits, S.depth]

/-- **Making a call respects a simulation**, by induction on the depth that is left. -/
theorem call (depth : ℕ) (hctx : Fits P l r ctx ctx') :
    S.Callers (call depth ctx) (call depth ctx') := by
  induction depth generalizing ctx ctx' with
  | zero =>
    intro name site f vs
    rw [Scriptlet.call, Scriptlet.call, S.depth_eq hctx]
    exact S.fail _ hctx site.2
  | succ depth ih =>
    intro name site f vs
    have hinside := S.fits_enter hctx name site
    rw [Scriptlet.call, Scriptlet.call, S.depth_eq hctx]
    refine S.bind_eq (S.noteCall _) fun _ => ?_
    -- calls from inside the body have one level less
    refine S.bind_eq (Lockstep.runBody hinside (ih hinside) f.body _) fun p => ?_
    rcases p with ⟨vars, _ | v⟩
    · exact S.fail _ hinside f.mark.2
    · exact S.pure rfl

theorem caller (hctx : Fits P l r ctx ctx') : S.Callers ctx.caller ctx'.caller := by
  rw [Context.caller, Context.caller, S.depth_eq hctx]
  exact S.call _ hctx

variable {S}

/-- One round of a loop respects a simulation. -/
theorem round (hctx : Fits P l r ctx ctx') (condition : Expr (MarkPair P))
    (body : List (Clause (MarkPair P))) (vars : Bindings) :
    S.Rel Eq
      (round ctx (condition.map MarkPair.left) (body.map (Clause.map MarkPair.left)) vars)
      (round ctx' (condition.map MarkPair.right) (body.map (Clause.map MarkPair.right)) vars) :=
  Lockstep.round hctx (S.caller hctx) condition body vars

/-- **Running statements respects a simulation**, as soon as running loops does. -/
theorem runStatements {looper looper' : Looper} (hlooper : S.Loopers looper looper')
    {w w' : World} (hw : World.Matches P w w') {ss ss' : List (Stmt Position)}
    (hss : List.Forall₂ (Stmt.Matches P) ss ss') :
    S.Rel (World.Matches P) (runStatements looper l w ss) (runStatements looper' r w' ss') :=
  Lockstep.runStatements (fun hctx _ => S.caller hctx) hlooper hw hss

end Simulation

end Scriptlet
