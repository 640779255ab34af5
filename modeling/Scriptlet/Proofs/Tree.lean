import Mathlib.Data.List.Basic
import Scriptlet.Script.Tree

/-!
# Working with trees

An expression holds lists of expressions, so the induction that comes with the type speaks of
lists beside expressions. Every use of it here wants the same thing of a list, that the claim holds
for all its members, and `Expr.induction` says it in that form once and for all; it is
what `induction` uses on expressions from here on.

Marks are changed one after another as functions are composed. Forgetting them altogether gives
the **bare** tree, and two trees with the same bare tree differ only in where they were read.

Two trees **match** when they are the same tree with related marks. That is said by one tree with
a pair of marks on every node, of which each of the two keeps its own half; so a proof about
matching trees is an induction over a single one. With equality for the relation, matching trees
are equal trees, and with no condition at all they are trees with the same bare tree.
-/

namespace Scriptlet

variable {α β γ : Type}

/-- **Induction over expressions**, with all members of a list at once. -/
@[elab_as_elim, induction_eliminator]
theorem Expr.induction {P : Expr α → Prop}
    (var : ∀ mark name, P (.var mark name)) (bool : ∀ mark value, P (.bool mark value))
    (number : ∀ mark value, P (.number mark value)) (text : ∀ mark value, P (.text mark value))
    (array : ∀ mark elements, (∀ e ∈ elements, P e) → P (.array mark elements))
    (binary : ∀ mark op left right, P left → P right → P (.binary mark op left right))
    (call : ∀ mark name args, (∀ e ∈ args, P e) → P (.call mark name args))
    (index : ∀ mark object place, P object → P place → P (.index mark object place))
    (member : ∀ mark object property, P object → P (.member mark object property))
    (method : ∀ mark object name args, P object → (∀ e ∈ args, P e) →
      P (.method mark object name args)) (e : Expr α) : P e :=
  @Expr.rec α P (fun es => ∀ e ∈ es, P e) var bool number text array binary call index member method
    (fun _ h => absurd h List.not_mem_nil)
    (fun _ _ hhead htail _ h => (List.mem_cons.1 h).elim (fun he => he ▸ hhead) (htail _)) e

/-! ### Changing marks -/

theorem Expr.mapList_eq_map (f : α → β) (es : List (Expr α)) :
    Expr.mapList f es = es.map (Expr.map f) := by
  induction es with
  | nil => rfl
  | cons e es ih => rw [Expr.mapList, ih, List.map_cons]

theorem Expr.mark_map (f : α → β) (e : Expr α) : (e.map f).mark = f e.mark := by
  cases e <;> rfl

theorem Expr.map_map (f : α → β) (g : β → γ) (e : Expr α) :
    (e.map f).map g = e.map (g ∘ f) := by
  have hlist : ∀ es : List (Expr α), (∀ e ∈ es, (e.map f).map g = e.map (g ∘ f)) →
      Expr.mapList g (Expr.mapList f es) = Expr.mapList (g ∘ f) es := by
    intro es ih
    rw [mapList_eq_map, mapList_eq_map, mapList_eq_map, List.map_map]
    exact List.map_congr_left ih
  induction e with
  | var | bool | number | text => rfl
  | array mark elements ih => simp only [map, hlist elements ih, Function.comp_apply]
  | binary mark op left right ihl ihr => simp only [map, ihl, ihr, Function.comp_apply]
  | call mark name args ih => simp only [map, hlist args ih, Function.comp_apply]
  | index mark object place iho ihp => simp only [map, iho, ihp, Function.comp_apply]
  | member mark object property iho => simp only [map, iho, Function.comp_apply]
  | method mark object name args iho ih =>
    simp only [map, iho, hlist args ih, Function.comp_apply]

/-- Changing marks twice in a clause is changing them once. -/
theorem Clause.map_map (f : α → β) (g : β → γ) (c : Clause α) :
    (c.map f).map g = c.map (g ∘ f) := by
  cases c with
  | assign mark name value => simp only [map, Expr.map_map, Function.comp_apply]
  | ret mark value => simp only [map, Expr.map_map, Function.comp_apply]

theorem Clause.map_map_list (f : α → β) (g : β → γ) (cs : List (Clause α)) :
    (cs.map (Clause.map f)).map (Clause.map g) = cs.map (Clause.map (g ∘ f)) := by
  rw [List.map_map]
  exact List.map_congr_left fun c _ => c.map_map f g

theorem Func.map_map (f : α → β) (g : β → γ) (fn : Func α) :
    (fn.map f).map g = fn.map (g ∘ f) := by
  simp only [map, Clause.map_map_list, Function.comp_apply]

/-- Changing marks twice in a statement is changing them once. -/
theorem Stmt.map_map (f : α → β) (g : β → γ) (s : Stmt α) :
    (s.map f).map g = s.map (g ∘ f) := by
  cases s with
  | clause c => simp only [map, Clause.map_map]
  | func name fn => simp only [map, Func.map_map]
  | cond mark condition body =>
    simp only [map, Expr.map_map, Clause.map_map_list, Function.comp_apply]
  | loop mark condition body =>
    simp only [map, Expr.map_map, Clause.map_map_list, Function.comp_apply]

/-! ### Bare trees -/

/-- An expression without its marks. -/
abbrev Expr.bare (e : Expr α) : Expr Unit := e.map fun _ => ()

/-- A clause without its marks. -/
abbrev Clause.bare (c : Clause α) : Clause Unit := c.map fun _ => ()

/-- A function without its marks. -/
abbrev Func.bare (f : Func α) : Func Unit := f.map fun _ => ()

/-- **A statement without its marks.** -/
abbrev Stmt.bare (s : Stmt α) : Stmt Unit := s.map fun _ => ()

/-- A bare tree does not know what the marks were. -/
theorem Stmt.bare_map (f : α → β) (s : Stmt α) : (s.map f).bare = s.bare :=
  s.map_map f _

/-! ### Matching trees -/

/-- A pair of related marks. -/
abbrev MarkPair (P : α → β → Prop) : Type := {p : α × β // P p.1 p.2}

namespace MarkPair

variable {P : α → β → Prop}

/-- The first mark of a pair. -/
def left (p : MarkPair P) : α := p.1.1

/-- The second mark of a pair. -/
def right (p : MarkPair P) : β := p.1.2

/-- Equal marks as a pair. -/
def same (a : α) : MarkPair (Eq : α → α → Prop) := ⟨(a, a), rfl⟩

/-- Marks that are paired by equality are the same on both sides. -/
theorem left_eq_right : (left : MarkPair (Eq : α → α → Prop) → α) = right :=
  funext fun p => p.2

end MarkPair

/-- Two functions match. -/
def Func.Matches (P : α → β → Prop) (f : Func α) (f' : Func β) : Prop :=
  ∃ d : Func (MarkPair P), d.map MarkPair.left = f ∧ d.map MarkPair.right = f'

/-- **Two statements match**: they are the same but for their marks, which are related. -/
def Stmt.Matches (P : α → β → Prop) (s : Stmt α) (s' : Stmt β) : Prop :=
  ∃ d : Stmt (MarkPair P), d.map MarkPair.left = s ∧ d.map MarkPair.right = s'

theorem Func.eq_of_matches {f f' : Func α} (h : Func.Matches Eq f f') : f = f' := by
  obtain ⟨d, rfl, rfl⟩ := h
  rw [MarkPair.left_eq_right]

/-- A tree whose marks stay as they are stays as it is. -/
theorem Expr.map_id (e : Expr α) : e.map id = e := by
  have hlist : ∀ es : List (Expr α), (∀ e ∈ es, e.map id = e) → Expr.mapList id es = es := by
    intro es ih
    rw [mapList_eq_map]
    exact (List.map_congr_left ih).trans (List.map_id es)
  induction e with
  | var | bool | number | text => rfl
  | array mark elements ih => rw [map, hlist elements ih, id]
  | binary mark op left right ihl ihr => rw [map, ihl, ihr, id]
  | call mark name args ih => rw [map, hlist args ih, id]
  | index mark object place iho ihp => rw [map, iho, ihp, id]
  | member mark object property iho => rw [map, iho, id]
  | method mark object name args iho ih => rw [map, iho, hlist args ih, id]

theorem Clause.map_id (c : Clause α) : c.map id = c := by
  cases c with
  | assign mark name value => rw [map, Expr.map_id, id]
  | ret mark value => rw [map, Expr.map_id, id]

theorem Clause.map_id_list (cs : List (Clause α)) : cs.map (Clause.map id) = cs :=
  (List.map_congr_left fun c _ => c.map_id).trans (List.map_id cs)

theorem Func.map_id (f : Func α) : f.map id = f := by
  rw [map, Clause.map_id_list, id]

theorem Stmt.map_id (s : Stmt α) : s.map id = s := by
  cases s with
  | clause c => rw [map, Clause.map_id]
  | func name f => rw [map, Func.map_id]
  | cond mark condition body => rw [map, Expr.map_id, Clause.map_id_list, id]
  | loop mark condition body => rw [map, Expr.map_id, Clause.map_id_list, id]

theorem Func.matches_refl (f : Func α) : Func.Matches Eq f f := by
  refine ⟨f.map MarkPair.same, ?_, ?_⟩
  · rw [Func.map_map]
    exact f.map_id
  · rw [Func.map_map]
    exact f.map_id

/-- Every statement matches itself. -/
theorem Stmt.matches_refl (s : Stmt α) : Stmt.Matches Eq s s := by
  refine ⟨s.map MarkPair.same, ?_, ?_⟩
  · rw [Stmt.map_map]
    exact s.map_id
  · rw [Stmt.map_map]
    exact s.map_id

/-! ### Trees with the same bare tree match -/

section Bare

variable {P : α → β → Prop} (hP : ∀ a b, P a b)

include hP

/-- Two expressions with one bare tree are the halves of one that has pairs of marks. The induction
is on the first, and the bare tree says what the second is. -/
theorem Expr.exists_paired {e : Expr α} {e' : Expr β} (h : e.bare = e'.bare) :
    ∃ d : Expr (MarkPair P), d.map MarkPair.left = e ∧ d.map MarkPair.right = e' := by
  -- lists have a bare tree for each item, so they are as long as one another
  have hlist : ∀ es : List (Expr α), (∀ e ∈ es, ∀ e' : Expr β, e.bare = e'.bare →
      ∃ d : Expr (MarkPair P), d.map MarkPair.left = e ∧ d.map MarkPair.right = e') →
      ∀ es' : List (Expr β), Expr.mapList (fun _ => ()) es = Expr.mapList (fun _ => ()) es' →
      ∃ ds : List (Expr (MarkPair P)), Expr.mapList MarkPair.left ds = es ∧
        Expr.mapList MarkPair.right ds = es' := by
    intro es
    induction es with
    | nil =>
      intro _ es' h
      cases es' with
      | nil => exact ⟨[], rfl, rfl⟩
      | cons => cases h
    | cons e es ihes =>
      intro ih es' h
      cases es' with
      | nil => cases h
      | cons e' es' =>
        obtain ⟨he, hes⟩ := List.cons.inj h
        obtain ⟨d, rfl, rfl⟩ := ih e List.mem_cons_self e' he
        obtain ⟨ds, rfl, rfl⟩ := ihes (fun x hx => ih x (List.mem_cons_of_mem _ hx)) es' hes
        exact ⟨d :: ds, rfl, rfl⟩
  induction e generalizing e' with
  | var mark name =>
    -- only another variable has the same bare tree
    cases e' <;> cases h
    exact ⟨.var ⟨(mark, _), hP _ _⟩ name, rfl, rfl⟩
  | bool mark value =>
    cases e' <;> cases h
    exact ⟨.bool ⟨(mark, _), hP _ _⟩ value, rfl, rfl⟩
  | number mark value =>
    cases e' <;> cases h
    exact ⟨.number ⟨(mark, _), hP _ _⟩ value, rfl, rfl⟩
  | text mark value =>
    cases e' <;> cases h
    exact ⟨.text ⟨(mark, _), hP _ _⟩ value, rfl, rfl⟩
  | array mark elements ih =>
    cases e' with
    | array mark' elements' =>
      obtain ⟨-, hes⟩ := Expr.array.inj h
      obtain ⟨ds, rfl, rfl⟩ := hlist elements (fun e he e' h => ih e he h) elements' hes
      exact ⟨.array ⟨(mark, mark'), hP _ _⟩ ds, rfl, rfl⟩
    | _ => cases h
  | binary mark op left right ihl ihr =>
    cases e' with
    | binary mark' op' left' right' =>
      obtain ⟨-, rfl, hl, hr⟩ := Expr.binary.inj h
      obtain ⟨dl, rfl, rfl⟩ := ihl hl
      obtain ⟨dr, rfl, rfl⟩ := ihr hr
      exact ⟨.binary ⟨(mark, mark'), hP _ _⟩ op dl dr, rfl, rfl⟩
    | _ => cases h
  | call mark name args ih =>
    cases e' with
    | call mark' name' args' =>
      obtain ⟨-, rfl, hes⟩ := Expr.call.inj h
      obtain ⟨ds, rfl, rfl⟩ := hlist args (fun e he e' h => ih e he h) args' hes
      exact ⟨.call ⟨(mark, mark'), hP _ _⟩ name ds, rfl, rfl⟩
    | _ => cases h
  | index mark object place iho ihp =>
    cases e' with
    | index mark' object' place' =>
      obtain ⟨-, ho, hp⟩ := Expr.index.inj h
      obtain ⟨dobj, rfl, rfl⟩ := iho ho
      obtain ⟨dp, rfl, rfl⟩ := ihp hp
      exact ⟨.index ⟨(mark, mark'), hP _ _⟩ dobj dp, rfl, rfl⟩
    | _ => cases h
  | member mark object property iho =>
    cases e' with
    | member mark' object' property' =>
      obtain ⟨-, ho, rfl⟩ := Expr.member.inj h
      obtain ⟨dobj, rfl, rfl⟩ := iho ho
      exact ⟨.member ⟨(mark, mark'), hP _ _⟩ dobj property, rfl, rfl⟩
    | _ => cases h
  | method mark object name args iho ih =>
    cases e' with
    | method mark' object' name' args' =>
      obtain ⟨-, ho, rfl, hes⟩ := Expr.method.inj h
      obtain ⟨dobj, rfl, rfl⟩ := iho ho
      obtain ⟨ds, rfl, rfl⟩ := hlist args (fun e he e' h => ih e he h) args' hes
      exact ⟨.method ⟨(mark, mark'), hP _ _⟩ dobj name ds, rfl, rfl⟩
    | _ => cases h

/-- Two clauses with one bare tree are the halves of one. -/
theorem Clause.exists_paired {c : Clause α} {c' : Clause β} (h : c.bare = c'.bare) :
    ∃ d : Clause (MarkPair P), d.map MarkPair.left = c ∧ d.map MarkPair.right = c' := by
  cases c with
  | assign mark name value =>
    cases c' with
    | assign mark' name' value' =>
      obtain ⟨-, rfl, hv⟩ := Clause.assign.inj h
      obtain ⟨d, rfl, rfl⟩ := Expr.exists_paired hP hv
      exact ⟨.assign ⟨(mark, mark'), hP _ _⟩ name d, rfl, rfl⟩
    | ret => cases h
  | ret mark value =>
    cases c' with
    | assign => cases h
    | ret mark' value' =>
      obtain ⟨-, hv⟩ := Clause.ret.inj h
      obtain ⟨d, rfl, rfl⟩ := Expr.exists_paired hP hv
      exact ⟨.ret ⟨(mark, mark'), hP _ _⟩ d, rfl, rfl⟩

theorem Clause.exists_paired_list {cs : List (Clause α)} {cs' : List (Clause β)}
    (h : cs.map Clause.bare = cs'.map Clause.bare) :
    ∃ ds : List (Clause (MarkPair P)), ds.map (Clause.map MarkPair.left) = cs ∧
      ds.map (Clause.map MarkPair.right) = cs' := by
  induction cs generalizing cs' with
  | nil =>
    obtain rfl := List.map_eq_nil_iff.1 h.symm
    exact ⟨[], rfl, rfl⟩
  | cons c cs ih =>
    obtain ⟨c', cs', rfl, hc, hcs⟩ := List.map_eq_cons_iff.1 h.symm
    obtain ⟨d, rfl, rfl⟩ := Clause.exists_paired hP hc.symm
    obtain ⟨ds, rfl, rfl⟩ := ih hcs.symm
    exact ⟨d :: ds, rfl, rfl⟩

/-- **Statements with the same bare tree match**, when marks need not be related. -/
theorem Stmt.matches_of_bare_eq {s : Stmt α} {s' : Stmt β} (h : s.bare = s'.bare) :
    Stmt.Matches P s s' := by
  cases s with
  | clause c =>
    cases s' with
    | clause c' =>
      obtain ⟨d, rfl, rfl⟩ := Clause.exists_paired hP (Stmt.clause.inj h)
      exact ⟨.clause d, rfl, rfl⟩
    | _ => cases h
  | func name f =>
    cases s' with
    | func name' f' =>
      obtain ⟨rfl, hf⟩ := Stmt.func.inj h
      -- two functions with one bare tree have the same parameters, and bodies that match
      obtain ⟨mark, params, body⟩ := f
      obtain ⟨mark', params', body'⟩ := f'
      obtain ⟨-, rfl, hbody⟩ := Func.mk.inj hf
      obtain ⟨ds, rfl, rfl⟩ := Clause.exists_paired_list hP hbody
      exact ⟨.func name ⟨⟨(mark, mark'), hP _ _⟩, params, ds⟩, rfl, rfl⟩
    | _ => cases h
  | cond mark condition body =>
    cases s' with
    | cond mark' condition' body' =>
      obtain ⟨-, hc, hbody⟩ := Stmt.cond.inj h
      obtain ⟨d, rfl, rfl⟩ := Expr.exists_paired hP hc
      obtain ⟨ds, rfl, rfl⟩ := Clause.exists_paired_list hP hbody
      exact ⟨.cond ⟨(mark, mark'), hP _ _⟩ d ds, rfl, rfl⟩
    | _ => cases h
  | loop mark condition body =>
    cases s' with
    | loop mark' condition' body' =>
      obtain ⟨-, hc, hbody⟩ := Stmt.loop.inj h
      obtain ⟨d, rfl, rfl⟩ := Expr.exists_paired hP hc
      obtain ⟨ds, rfl, rfl⟩ := Clause.exists_paired_list hP hbody
      exact ⟨.loop ⟨(mark, mark'), hP _ _⟩ d ds, rfl, rfl⟩
    | _ => cases h

end Bare

/-! ### Parts and marks -/

mutual

/-- **The parts of an expression**: itself first, and all the expressions in it. -/
def Expr.parts : Expr α → List (Expr α)
  | .var mark name => [.var mark name]
  | .bool mark value => [.bool mark value]
  | .number mark value => [.number mark value]
  | .text mark value => [.text mark value]
  | .array mark elements => .array mark elements :: Expr.partsList elements
  | .binary mark op left right => .binary mark op left right :: (left.parts ++ right.parts)
  | .call mark name args => .call mark name args :: Expr.partsList args
  | .index mark object place => .index mark object place :: (object.parts ++ place.parts)
  | .member mark object property => .member mark object property :: object.parts
  | .method mark object name args =>
    .method mark object name args :: (object.parts ++ Expr.partsList args)

/-- The parts of expressions. -/
def Expr.partsList : List (Expr α) → List (Expr α)
  | [] => []
  | e :: es => e.parts ++ Expr.partsList es

end

/-- The expressions in a clause. -/
def Clause.parts : Clause α → List (Expr α)
  | .assign _ _ value | .ret _ value => value.parts

/-- The expressions that a statement of the top level evaluates by itself. -/
def Stmt.parts : Stmt α → List (Expr α)
  | .clause c => c.parts
  | .func _ _ => []
  | .cond _ condition body | .loop _ condition body =>
    condition.parts ++ body.flatMap Clause.parts

/-- The marks in an expression. -/
def Expr.marks (e : Expr α) : List α :=
  e.parts.map Expr.mark

/-- The marks in a clause. -/
def Clause.marks (c : Clause α) : List α :=
  c.mark :: c.parts.map Expr.mark

/-- **The marks in a statement.** -/
def Stmt.marks : Stmt α → List α
  | .clause c => c.marks
  | .func _ f => f.mark :: f.body.flatMap Clause.marks
  | .cond mark condition body | .loop mark condition body =>
    mark :: (condition.marks ++ body.flatMap Clause.marks)

/-- The expressions directly in an expression. -/
def Expr.children : Expr α → List (Expr α)
  | .var _ _ | .bool _ _ | .number _ _ | .text _ _ => []
  | .array _ es | .call _ _ es => es
  | .binary _ _ left right => [left, right]
  | .index _ object place => [object, place]
  | .member _ object _ => [object]
  | .method _ object _ args => object :: args

/-- The parts of a list are those of its members in order. -/
theorem Expr.partsList_eq_flatMap (es : List (Expr α)) :
    Expr.partsList es = es.flatMap Expr.parts := by
  induction es with
  | nil => rfl
  | cons e es ih => rw [Expr.partsList, ih, List.flatMap_cons]

/-- The parts of an expression are itself and the parts of its children. -/
theorem Expr.parts_eq (e : Expr α) : e.parts = e :: e.children.flatMap Expr.parts := by
  cases e <;> simp [parts, children, partsList_eq_flatMap]

/-- The marks of an expression are its own and those of its children. -/
theorem Expr.marks_eq (e : Expr α) : e.marks = e.mark :: e.children.flatMap Expr.marks := by
  rw [marks, parts_eq, List.map_cons, List.map_flatMap]
  rfl

theorem Expr.mem_parts (e : Expr α) : e ∈ e.parts :=
  e.parts_eq ▸ List.mem_cons_self

/-- Induction over expressions, without a look at what they are. -/
theorem Expr.induction_children {P : Expr α → Prop}
    (h : ∀ e : Expr α, (∀ c ∈ e.children, P c) → P e) (e : Expr α) : P e := by
  induction e with
  | var | bool | number | text => exact h _ fun _ hc => absurd hc List.not_mem_nil
  | array mark elements ih | call mark name elements ih => exact h _ ih
  | binary mark op left right ihl ihr | index mark left right ihl ihr =>
    exact h _ (List.forall_mem_cons.2 ⟨ihl, List.forall_mem_singleton.2 ihr⟩)
  | member mark object property iho => exact h _ (List.forall_mem_singleton.2 iho)
  | method mark object name args iho ih => exact h _ (List.forall_mem_cons.2 ⟨iho, ih⟩)

/-- The children of a tree with other marks are its children with other marks. -/
theorem Expr.children_map (f : α → β) (e : Expr α) :
    (e.map f).children = e.children.map (Expr.map f) := by
  cases e <;> simp [map, children, mapList_eq_map]

theorem Expr.parts_map (f : α → β) (e : Expr α) :
    (e.map f).parts = e.parts.map (Expr.map f) := by
  induction e using Expr.induction_children with
  | h e ih =>
    rw [parts_eq, parts_eq, children_map, List.flatMap_map, List.map_cons, List.map_flatMap,
      List.flatMap_congr ih]

theorem Clause.parts_map (f : α → β) (c : Clause α) :
    (c.map f).parts = c.parts.map (Expr.map f) := by
  cases c with
  | assign mark name value | ret mark value => exact value.parts_map f

/-- The parts of a statement with other marks are its parts with other marks. -/
theorem Stmt.parts_map (f : α → β) (s : Stmt α) :
    (s.map f).parts = s.parts.map (Expr.map f) := by
  cases s with
  | clause c => exact c.parts_map f
  | func name fn => rfl
  | cond mark condition body | loop mark condition body =>
    rw [map, parts, parts, Expr.parts_map, List.flatMap_map, List.map_append, List.map_flatMap,
      List.flatMap_congr fun c _ => c.parts_map f]

/-- The marks of a tree with other marks are these, in the same order. -/
theorem Expr.marks_map (f : α → β) (e : Expr α) : (e.map f).marks = e.marks.map f := by
  rw [marks, marks, parts_map, List.map_map, List.map_map]
  exact List.map_congr_left fun e _ => e.mark_map f

/-- What a change of marks does is told by the marks there are. -/
theorem Expr.map_congr {f g : α → β} {e : Expr α} (h : ∀ m ∈ e.marks, f m = g m) :
    e.map f = e.map g := by
  induction e using Expr.induction_children with
  | h e ih =>
    have hmark : f e.mark = g e.mark := h _ (e.marks_eq ▸ List.mem_cons_self)
    have hchildren : ∀ c ∈ e.children, c.map f = c.map g := fun c hc => ih c hc fun m hm =>
      h m (e.marks_eq ▸ List.mem_cons_of_mem _ (List.mem_flatMap.2 ⟨c, hc, hm⟩))
    cases e <;> simpa [map, mark, children, mapList_eq_map, and_assoc] using
      And.intro hmark hchildren

theorem Clause.map_congr {f g : α → β} {c : Clause α} (h : ∀ m ∈ c.marks, f m = g m) :
    c.map f = c.map g := by
  cases c with
  | assign mark name value | ret mark value =>
    obtain ⟨hmark, hvalue⟩ := List.forall_mem_cons.1 h
    rw [map, map, Expr.map_congr hvalue]
    exact hmark ▸ rfl

theorem Clause.map_congr_list {f g : α → β} {cs : List (Clause α)}
    (h : ∀ m ∈ cs.flatMap Clause.marks, f m = g m) :
    cs.map (Clause.map f) = cs.map (Clause.map g) :=
  List.map_congr_left fun c hc => map_congr fun m hm => h m (List.mem_flatMap.2 ⟨c, hc, hm⟩)

/-- What becomes of a statement depends only on what becomes of the marks in it. -/
theorem Stmt.map_congr {f g : α → β} {s : Stmt α} (h : ∀ m ∈ s.marks, f m = g m) :
    s.map f = s.map g := by
  cases s with
  | clause c => exact congrArg Stmt.clause (Clause.map_congr h)
  | func name fn =>
    obtain ⟨hmark, hbody⟩ := List.forall_mem_cons.1 h
    rw [map, map, Func.map, Func.map, Clause.map_congr_list hbody, hmark]
  | cond mark condition body | loop mark condition body =>
    obtain ⟨hmark, hrest⟩ := List.forall_mem_cons.1 h
    obtain ⟨hcondition, hbody⟩ := List.forall_mem_append.1 hrest
    rw [map, map, Expr.map_congr hcondition, Clause.map_congr_list hbody, hmark]

theorem Clause.marks_map (f : α → β) (c : Clause α) : (c.map f).marks = c.marks.map f := by
  cases c with
  | assign mark name value | ret mark value => exact congrArg (f mark :: ·) (value.marks_map f)

theorem Clause.flatMap_marks_map (f : α → β) (cs : List (Clause α)) :
    (cs.map (Clause.map f)).flatMap Clause.marks = (cs.flatMap Clause.marks).map f := by
  rw [List.flatMap_map, List.map_flatMap, List.flatMap_congr fun c _ => c.marks_map f]

/-- **Changing marks** changes the marks, and nothing else about them. -/
theorem Stmt.marks_map (f : α → β) (s : Stmt α) : (s.map f).marks = s.marks.map f := by
  cases s with
  | clause c => exact c.marks_map f
  | func name fn => exact congrArg (f fn.mark :: ·) (Clause.flatMap_marks_map f fn.body)
  | cond mark condition body | loop mark condition body =>
    simp only [map, marks, Expr.marks_map, Clause.flatMap_marks_map, List.map_cons,
      List.map_append]

end Scriptlet
