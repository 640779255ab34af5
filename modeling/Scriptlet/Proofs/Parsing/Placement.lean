import Scriptlet.Proofs.Parsing.Footholds
import Scriptlet.Proofs.Text.Positions

/-!
# Positions lead to the text of a node

Every node of a script carries a position, and whoever reports an error there trusts that the text
of the node is found at it. It is: the position of a node is that of exactly one offset at which the
parser can stand, and there stands a spelling of the node, for a binary node from the operator on,
with the left operand and a blank before it. So the offset is where the first word of the node
begins: the keyword or the name of a statement, the name of a call, the object of a postfix form.

A text **lies** in a source (`LiesAt`) when it does not run on into what stands next to it: that is
layout or punctuation, and so no part of a name, a number, a text between quotes or an operator. The
layout of scripts puts layout or punctuation on both sides of every node. So all that is in a
node whose text lies in the source has a text there in turn, one step down at a time
(`Expr.Sits.of_mem_children`).

The offsets of a binary node, of its operands, and of the items of a list are in the order in which
they are written, and positions of footholds are in the order of their offsets.
-/

namespace Scriptlet

variable {α β : Type}

/-! ### Texts in a source -/

/-- What may stand next to a node: layout and punctuation. -/
def Bytes.isJoint (b : UInt8) : Bool :=
  (Bytes.ofString " \n()[],.").contains b

/-- A text begins with layout or punctuation. -/
def Bytes.BeginsJoint (s : Bytes) : Prop :=
  ∃ b ∈ s.head?, isJoint b = true

/-- A text ends with layout or punctuation. -/
def Bytes.EndsJoint (s : Bytes) : Prop :=
  ∃ b ∈ s.getLast?, isJoint b = true

instance (s : Bytes) : Decidable s.BeginsJoint :=
  inferInstanceAs (Decidable (∃ b ∈ s.head?, Bytes.isJoint b = true))

instance (s : Bytes) : Decidable s.EndsJoint :=
  inferInstanceAs (Decidable (∃ b ∈ s.getLast?, Bytes.isJoint b = true))

/-- **A text lies in a source at an offset**: it is there, and next to it on either side is layout
or punctuation, or nothing. -/
def LiesAt (source : Bytes) (o : Nat) (t : Bytes) : Prop :=
  ∃ pre post, source = pre ++ (t ++ post) ∧ pre.length = o ∧ (pre = [] ∨ pre.EndsJoint) ∧
    (post = [] ∨ post.BeginsJoint)

section LiesAt

open Bytes Scriptlet.Parser

variable {source t u v sep : Bytes} {o : Nat} {as : List α} {R : Nat → α → Bytes → Prop}

/-- Layout and punctuation are plain, so a text that ends in them ends plain. -/
theorem Bytes.EndsJoint.endsPlain (h : EndsJoint u) : EndsPlain u := by
  have hplain : (Bytes.ofString " \n()[],.").all (· < 0x80) = true := rfl
  obtain ⟨b, hb, hjoint⟩ := h
  intro b' hb'
  obtain rfl := Option.mem_unique hb hb'
  exact of_decide_eq_true (List.all_eq_true.1 hplain b (List.contains_iff_mem.1 hjoint))

theorem Bytes.BeginsJoint.append (hu : BeginsJoint u) (v : Bytes) : BeginsJoint (u ++ v) := by
  obtain ⟨b, hb, hjoint⟩ := hu
  exact ⟨b, by rw [List.head?_append, Option.mem_def.1 hb]; rfl, hjoint⟩

theorem Bytes.EndsJoint.append (hv : EndsJoint v) (u : Bytes) : EndsJoint (u ++ v) := by
  obtain ⟨b, hb, hjoint⟩ := hv
  exact ⟨b, by rw [List.getLast?_append, Option.mem_def.1 hb]; rfl, hjoint⟩

/-- A text that lies in a source begins at a foothold of it. -/
theorem LiesAt.foothold (h : LiesAt source o t) : Foothold source o := by
  obtain ⟨pre, post, rfl, rfl, hpre, -⟩ := h
  refine ⟨pre, t ++ post, rfl, rfl, ?_⟩
  rcases hpre with rfl | hpre
  · exact endsPlain_nil
  · exact hpre.endsPlain

/-- The first of two texts lies where both of them lie, when the second begins with layout or
punctuation. -/
theorem LiesAt.left (h : LiesAt source o (t ++ v)) (hv : v = [] ∨ BeginsJoint v) :
    LiesAt source o t := by
  obtain ⟨pre, post, rfl, rfl, hpre, hpost⟩ := h
  refine ⟨pre, v ++ post, by rw [List.append_assoc], rfl, hpre, ?_⟩
  rcases hv with rfl | hv
  · exact hpost
  · exact .inr (hv.append post)

/-- The second of two texts lies behind the first one, when that ends in layout or punctuation. -/
theorem LiesAt.right (h : LiesAt source o (u ++ t)) (hu : EndsJoint u) :
    LiesAt source (o + u.length) t := by
  obtain ⟨pre, post, rfl, rfl, -, hpost⟩ := h
  exact ⟨pre ++ u, post, by simp only [List.append_assoc], List.length_append,
    .inr (hu.append pre), hpost⟩

/-- The text after a piece that ends with layout or punctuation lies in the source. -/
theorem LiesAt.after {w : Bytes} (h : LiesAt source o (u ++ (w ++ t))) (hw : EndsJoint w) :
    LiesAt source (o + u.length + w.length) t := by
  rw [← List.append_assoc] at h
  rw [Nat.add_assoc, ← List.length_append]
  exact h.right (hw.append u)

/-- What stands between two items. -/
structure IsSeparator (sep : Bytes) : Prop where
  begins : BeginsJoint sep
  ends : EndsJoint sep

theorem isSeparator_comma : IsSeparator (Bytes.ofString ", ") := ⟨by decide, by decide⟩

theorem isSeparator_line : IsSeparator (Bytes.ofString "\n") := ⟨by decide, by decide⟩

theorem isSeparator_indentation : IsSeparator (Bytes.ofString "\n    ") := ⟨by decide, by decide⟩

/-- Items with a separator before each begin with layout or punctuation, unless there are none. -/
theorem beginsJoint_of_eachAt (hsep : IsSeparator sep) (hE : EachAt (After sep R) o as t) :
    t = [] ∨ BeginsJoint t := by
  cases as with
  | nil => exact .inl hE
  | cons a as =>
    obtain ⟨t₁, t₂, rfl, ⟨u, rfl, -⟩, -⟩ := hE
    exact .inr ((hsep.begins.append u).append t₂)

/-- Items that follow a text lie in the source when they do so together. -/
theorem LiesAt.of_eachAt (hsep : IsSeparator sep) (h : LiesAt source o (u ++ t))
    (hE : EachAt (After sep R) (o + u.length) as t) :
    ∀ a ∈ as, ∃ o' t', R o' a t' ∧ LiesAt source o' t' := by
  induction as generalizing u t with
  | nil => simp
  | cons a as ih =>
    obtain ⟨t₁, t₂, rfl, ⟨w, rfl, hR⟩, hE⟩ := hE
    rw [List.forall_mem_cons]
    constructor
    · rw [List.append_assoc] at h
      exact ⟨_, w, hR, (h.after hsep.ends).left (beginsJoint_of_eachAt hsep hE)⟩
    · rw [Nat.add_assoc, ← List.length_append] at hE
      rw [← List.append_assoc] at h
      exact ih h hE

/-- Items with something between them lie in the source when they do so together. -/
theorem LiesAt.of_itemsAt (hsep : IsSeparator sep) (h : LiesAt source o t)
    (hI : ItemsAt sep R o as t) : ∀ a ∈ as, ∃ o' t', R o' a t' ∧ LiesAt source o' t' := by
  cases as with
  | nil => simp
  | cons a as =>
    obtain ⟨t₁, t₂, rfl, hR, hE⟩ := hI
    exact List.forall_mem_cons.2
      ⟨⟨o, t₁, hR, h.left (beginsJoint_of_eachAt hsep hE)⟩, h.of_eachAt hsep hE⟩

/-- The places of items are in the order in which they are written. -/
theorem pairwise_lt_of_eachAt {f : α → Nat} (hsep : sep ≠ [])
    (hf : ∀ {o a t}, R o a t → o ≤ f a ∧ f a ≤ o + t.length)
    (hE : EachAt (After sep R) o as t) :
    as.Pairwise (fun a b => f a < f b) ∧ ∀ a ∈ as, o < f a := by
  induction as generalizing o t with
  | nil => simp
  | cons a as ih =>
    obtain ⟨t₁, t₂, rfl, ⟨u, rfl, hR⟩, hE⟩ := hE
    obtain ⟨hpairwise, hlt⟩ := ih hE
    have hrange := hf hR
    have hpos := List.length_pos_iff.2 hsep
    rw [List.length_append] at hlt
    refine ⟨List.pairwise_cons.2 ⟨fun b hb => ?_, hpairwise⟩, List.forall_mem_cons.2 ⟨?_, ?_⟩⟩
    · have := hlt b hb
      omega
    · omega
    · intro b hb
      have := hlt b hb
      omega

/-- What is found inside each of several items, in a list with separators, comes in their order. -/
theorem pairwise_lt_of_itemsAt {f : α → Nat} (hsep : sep ≠ [])
    (hf : ∀ {o a t}, R o a t → o ≤ f a ∧ f a ≤ o + t.length) (hI : ItemsAt sep R o as t) :
    as.Pairwise (fun a b => f a < f b) := by
  cases as with
  | nil => exact .nil
  | cons a as =>
    obtain ⟨t₁, t₂, rfl, hR, hE⟩ := hI
    obtain ⟨hpairwise, hlt⟩ := pairwise_lt_of_eachAt (R := R) hsep hf hE
    exact List.pairwise_cons.2 ⟨fun b hb => Nat.lt_of_le_of_lt (hf hR).2 (hlt b hb), hpairwise⟩

end LiesAt

/-! ### Trees in a source -/

/-- An expression stands in the source at the offsets that it is marked with. -/
def Expr.Sits (source : Bytes) (e : Expr Nat) : Prop :=
  ∃ o t, e.SpellsAt o t ∧ LiesAt source o t

/-- A clause stands in the source at the offsets that it is marked with. -/
def Clause.Sits (source : Bytes) (c : Clause Nat) : Prop :=
  ∃ o t, c.SpellsAt o t ∧ LiesAt source o t

/-- A statement stands in the source at the offsets that it is marked with. -/
def Stmt.Sits (source : Bytes) (s : Stmt Nat) : Prop :=
  ∃ o t, s.SpellsAt o t ∧ LiesAt source o t

section Sits

open Bytes

variable {source : Bytes} {o : Nat} {t u v w : Bytes}

/-- An operator with its blanks keeps its operands apart. -/
theorem Operator.isSeparator_spaced (op : Operator) : IsSeparator op.spaced := by
  cases op <;> exact ⟨by decide, by decide⟩

/-- Expressions between brackets, after a text that ends with the opening one. -/
theorem Expr.sits_of_items {es : List (Expr Nat)} (h : LiesAt source o (u ++ (w ++ (t ++ v))))
    (hw : EndsJoint w) (hv : BeginsJoint v)
    (hes : Expr.ItemsSpellAt (o + u.length + w.length) es t) : ∀ e ∈ es, e.Sits source :=
  ((h.after hw).left (.inr hv)).of_itemsAt isSeparator_comma (Expr.itemsSpellAt_iff.1 hes)

/-- **What is directly in an expression stands in the source** when the expression does: the grammar
puts brackets, blanks, commas and full stops around it. -/
theorem Expr.Sits.of_mem_children {e c : Expr Nat} (h : e.Sits source) (hc : c ∈ e.children) :
    c.Sits source := by
  obtain ⟨o, t, hspells, hlies⟩ := h
  -- What follows an object, or a left operand.
  have hobject : ∀ {object : Expr Nat} {u w v : Bytes}, object.SpellsAt o u →
      LiesAt source o (u ++ (w ++ v)) → BeginsJoint w → object.Sits source :=
    fun hu hlies hw => ⟨o, _, hu, hlies.left (.inr (hw.append _))⟩
  cases e with
  | var | bool | number | text => cases hc
  | array mark elements =>
    obtain ⟨-, u, hu, rfl⟩ := hspells
    exact Expr.sits_of_items (u := []) (w := Bytes.ofString "[") hlies (by decide) (by decide)
      hu c hc
  | binary mark op left right =>
    obtain ⟨u, v, hu, -, hv, rfl⟩ := hspells
    rcases List.mem_pair.1 hc with rfl | rfl
    · exact hobject hu hlies op.isSeparator_spaced.begins
    · exact ⟨_, v, hv, hlies.after op.isSeparator_spaced.ends⟩
  | call mark name args =>
    obtain ⟨-, u, hu, rfl⟩ := hspells
    exact Expr.sits_of_items hlies (by decide) (by decide) hu c hc
  | index mark object place =>
    obtain ⟨-, u, v, hu, hv, rfl⟩ := hspells
    rcases List.mem_pair.1 hc with rfl | rfl
    · exact hobject hu hlies (by decide)
    · exact ⟨_, v, hv, (hlies.after (w := Bytes.ofString "[") (by decide)).left (.inr (by decide))⟩
  | member mark object property =>
    obtain ⟨-, u, hu, rfl⟩ := hspells
    obtain rfl := List.mem_singleton.1 hc
    exact hobject hu hlies (by decide)
  | method mark object name args =>
    obtain ⟨-, u, v, hu, hv, rfl⟩ := hspells
    rcases List.mem_cons.1 hc with rfl | hc
    · exact hobject hu hlies (by decide)
    · have hargs : LiesAt source o ((u ++ (Bytes.ofString "." ++ name)) ++
          (Bytes.ofString "(" ++ (v ++ Bytes.ofString ")"))) := by
        simpa only [List.append_assoc] using hlies
      refine Expr.sits_of_items hargs (by decide) (by decide) ?_ c hc
      rw [List.length_append, List.length_append, ← Nat.add_assoc, ← Nat.add_assoc]
      exact hv

/-- **All that is in an expression stands in the source.** -/
theorem Expr.Sits.of_mem_parts {e p : Expr Nat} (h : e.Sits source) (hp : p ∈ e.parts) :
    p.Sits source := by
  induction e using Expr.induction_children with
  | h e ih =>
    rw [parts_eq] at hp
    rcases List.mem_cons.1 hp with rfl | hp
    · exact h
    · obtain ⟨c, hc, hp⟩ := List.mem_flatMap.1 hp
      exact ih c hc (h.of_mem_children hc) hp

theorem Clause.Sits.of_mem_parts {c : Clause Nat} {p : Expr Nat} (h : c.Sits source)
    (hp : p ∈ c.parts) : p.Sits source := by
  obtain ⟨o, t, hspells, hlies⟩ := h
  cases c with
  | assign mark name value =>
    obtain ⟨-, u, hu, rfl⟩ := hspells
    exact Expr.Sits.of_mem_parts ⟨_, u, hu, hlies.after (w := Bytes.ofString " = ") (by decide)⟩ hp
  | ret mark value =>
    obtain ⟨-, u, hu, rfl⟩ := hspells
    exact Expr.Sits.of_mem_parts ⟨_, u, hu, hlies.right (by decide)⟩ hp

/-- The clauses of a body sit in the source when the body lies in it. -/
theorem Clause.sits_of_body {body : List (Clause Nat)} (h : LiesAt source o (u ++ v))
    (hv : Clause.BodySpellsAt (o + u.length) body v) : ∀ c ∈ body, c.Sits source :=
  h.of_eachAt isSeparator_indentation hv

/-- A keyword, a condition and a body in the source. -/
theorem sits_of_block {condition : Expr Nat} {body : List (Clause Nat)}
    (h : LiesAt source o (w ++ (u ++ v))) (hw : EndsJoint w)
    (hu : condition.SpellsAt (o + w.length) u)
    (hv : Clause.BodySpellsAt (o + w.length + u.length) body v) :
    condition.Sits source ∧ ∀ c ∈ body, c.Sits source := by
  refine ⟨⟨_, u, hu, (h.right hw).left (beginsJoint_of_eachAt isSeparator_indentation hv)⟩, ?_⟩
  rw [← List.append_assoc] at h
  rw [Nat.add_assoc, ← List.length_append] at hv
  exact Clause.sits_of_body h hv

/-- The statements of a script sit in its source, since nothing else is in it. -/
theorem Script.sits_of_spellsAt {ss : List (Stmt Nat)} (h : Script.SpellsAt 0 ss source) :
    ∀ s ∈ ss, s.Sits source :=
  LiesAt.of_itemsAt isSeparator_line ⟨[], [], by simp, rfl, .inl rfl, .inl rfl⟩ h

end Sits

/-! ### Nodes -/

theorem Stmt.mark_map (f : α → β) (s : Stmt α) : (s.map f).mark = f s.mark := by
  cases s with
  | clause c => exact c.mark_map f
  | func | cond | loop => rfl

/-- A node of a script. -/
inductive Node (α : Type) where
  /-- A statement with a body. -/
  | stmt (s : Stmt α)
  /-- An assignment or a return, on the top level or in a body. -/
  | clause (c : Clause α)
  /-- An expression. -/
  | expr (e : Expr α)

namespace Node

/-- The mark of a node. -/
def mark : Node α → α
  | .stmt s => s.mark
  | .clause c => c.mark
  | .expr e => e.mark

/-- The same node with every mark changed by `f`. -/
def map (f : α → β) : Node α → Node β
  | .stmt s => .stmt (s.map f)
  | .clause c => .clause (c.map f)
  | .expr e => .expr (e.map f)

theorem mark_map (f : α → β) (n : Node α) : (n.map f).mark = f n.mark := by
  cases n with
  | stmt s => exact s.mark_map f
  | clause c => exact c.mark_map f
  | expr e => exact e.mark_map f

end Node

/-- The nodes of a clause: itself, and the expressions in it. -/
def Clause.nodes (c : Clause α) : List (Node α) :=
  .clause c :: c.parts.map .expr

/-- **The nodes of a statement**: itself, the clauses of its body, and the expressions in all of
them. -/
def Stmt.nodes : Stmt α → List (Node α)
  | .clause c => c.nodes
  | .func name f => .stmt (.func name f) :: f.body.flatMap Clause.nodes
  | .cond mark condition body =>
    .stmt (.cond mark condition body) :: (condition.parts.map .expr ++ body.flatMap Clause.nodes)
  | .loop mark condition body =>
    .stmt (.loop mark condition body) :: (condition.parts.map .expr ++ body.flatMap Clause.nodes)

theorem Expr.nodes_map (f : α → β) (e : Expr α) :
    (e.map f).parts.map Node.expr = (e.parts.map Node.expr).map (Node.map f) := by
  rw [parts_map, List.map_map, List.map_map]
  rfl

theorem Clause.nodes_map (f : α → β) (c : Clause α) :
    (c.map f).nodes = c.nodes.map (Node.map f) := by
  rw [nodes, nodes, parts_map, List.map_cons, List.map_map, List.map_map]
  rfl

theorem Clause.flatMap_nodes_map (f : α → β) (cs : List (Clause α)) :
    (cs.map (Clause.map f)).flatMap Clause.nodes = (cs.flatMap Clause.nodes).map (Node.map f) := by
  rw [List.flatMap_map, List.map_flatMap, List.flatMap_congr fun c _ => c.nodes_map f]

/-- Changing marks changes them in the nodes, and nothing else about them. -/
theorem Stmt.nodes_map (f : α → β) (s : Stmt α) : (s.map f).nodes = s.nodes.map (Node.map f) := by
  cases s with
  | clause c => exact c.nodes_map f
  | func name fn => exact congrArg (_ :: ·) (Clause.flatMap_nodes_map f fn.body)
  | cond mark condition body | loop mark condition body =>
    simp only [map, nodes, Expr.nodes_map, Clause.flatMap_nodes_map, List.map_cons,
      List.map_append, Node.map]

/-! ### What is found at a position -/

/-- **The expression is written in the source at an offset**: a spelling of it lies there. A binary
node is written where its operator is: in a spelling of the whole that lies in the source,
after the left operand and a blank. -/
def Expr.WrittenAt (source : Bytes) (o : Nat) : Expr α → Prop
  | .binary _ op left right =>
    ∃ start u v, left.bare.Spells u ∧ right.bare.Spells v ∧
      LiesAt source start (u ++ op.spaced ++ v) ∧ o = start + u.length + 1
  | e => ∃ t, e.bare.Spells t ∧ LiesAt source o t

/-- **The node is written in the source at an offset.** -/
def Node.WrittenAt (source : Bytes) (o : Nat) : Node α → Prop
  | .stmt s => ∃ t, s.bare.Spells t ∧ LiesAt source o t
  | .clause c => ∃ t, c.bare.Spells t ∧ LiesAt source o t
  | .expr e => e.WrittenAt source o

/-- **The marks of operands and items are in order**: the mark of a binary node is between those of
its operands, and those of elements and arguments follow one another. -/
def Expr.InOrder (R : α → α → Prop) : Expr α → Prop
  | .binary mark _ left right => R left.mark mark ∧ R mark right.mark
  | .array _ items | .call _ _ items | .method _ _ _ items =>
    items.Pairwise fun e e' => R e.mark e'.mark
  | .var .. | .bool .. | .number .. | .text .. | .index .. | .member .. => True

/-- The marks directly in a node are in order. -/
def Node.InOrder (R : α → α → Prop) : Node α → Prop
  | .expr e => e.InOrder R
  | .stmt _ | .clause _ => True

section Written

variable {source : Bytes} {o : Nat} {f : α → β} {R : α → α → Prop} {Q : β → β → Prop}

/-- Where an expression is written does not depend on its marks. -/
theorem Expr.writtenAt_map {e : Expr α} :
    (e.map f).WrittenAt source o ↔ e.WrittenAt source o := by
  have hbare : ∀ e : Expr α, (e.map f).bare = e.bare := fun e => e.map_map f _
  cases e with
  | binary mark op left right => simp only [map, WrittenAt, hbare]
  | var mark | bool mark | number mark | text mark | array mark | call mark | index mark
  | member mark | method mark =>
    exact exists_congr fun t => by rw [hbare]

theorem Node.writtenAt_map {n : Node α} : (n.map f).WrittenAt source o ↔ n.WrittenAt source o := by
  cases n with
  | stmt s => rw [map, WrittenAt, WrittenAt, Stmt.bare_map]
  | clause c => rw [map, WrittenAt, WrittenAt, Clause.bare, c.map_map]
  | expr e => exact Expr.writtenAt_map

/-- A change of marks that keeps a relation keeps them in order by it. -/
theorem Expr.InOrder.map {e : Expr α} (h : e.InOrder R) (hRQ : ∀ {a b}, R a b → Q (f a) (f b)) :
    (e.map f).InOrder Q := by
  cases e with
  | var | bool | number | text | index | member => trivial
  | binary mark op left right =>
    rw [Expr.map, InOrder, mark_map, mark_map]
    exact ⟨hRQ h.1, hRQ h.2⟩
  | array mark items | call mark name items | method mark object name items =>
    rw [Expr.map, InOrder, mapList_eq_map, List.pairwise_map]
    refine List.Pairwise.imp (fun h => ?_) h
    rw [mark_map, mark_map]
    exact hRQ h

theorem Node.InOrder.map {n : Node α} (h : n.InOrder R) (hRQ : ∀ {a b}, R a b → Q (f a) (f b)) :
    (n.map f).InOrder Q := by
  cases n with
  | stmt | clause => trivial
  | expr e => exact Expr.InOrder.map h hRQ

end Written

section Placed

variable {source : Bytes} {o : Nat} {t : Bytes}

/-- The mark of an expression is in its text. -/
theorem Expr.mark_range {e : Expr Nat} (h : e.SpellsAt o t) :
    o ≤ e.mark ∧ e.mark ≤ o + t.length := by
  cases e with
  | binary mark op left right =>
    obtain ⟨u, v, -, rfl, -, rfl⟩ := h
    simp only [mark, List.length_append, Operator.spaced, List.length_cons]
    omega
  | var | bool | number | text | array | call | index | member | method =>
    obtain rfl : _ = o := h.1
    exact ⟨Nat.le_refl _, Nat.le_add_right _ _⟩

/-- **An expression that sits in the source is written at its mark**: for a binary one its mark is
at the operator, one blank after the left operand. -/
theorem Expr.Sits.writtenAt {e : Expr Nat} (h : e.Sits source) : e.WrittenAt source e.mark := by
  obtain ⟨o, t, hspells, hlies⟩ := h
  cases e with
  | binary mark op left right =>
    obtain ⟨u, v, hu, rfl, hv, rfl⟩ := hspells
    rw [← List.append_assoc] at hlies
    exact ⟨o, u, v, Expr.spells_of_spellsAt hu, Expr.spells_of_spellsAt hv, hlies, rfl⟩
  | var | bool | number | text | array | call | index | member | method =>
    obtain rfl : _ = o := hspells.1
    exact ⟨t, Expr.spells_of_spellsAt hspells, hlies⟩

/-- Where an expression is written, the parser can stand. -/
theorem Expr.WrittenAt.foothold {e : Expr α} (h : e.WrittenAt source o) : Foothold source o := by
  cases e with
  | binary mark op left right =>
    -- The operator comes after a blank.
    obtain ⟨start, u, v, -, -, hlies, rfl⟩ := h
    have hblank :
        LiesAt source start (u ++ ([Bytes.space] ++ (op.symbol ++ [Bytes.space] ++ v))) := by
      simpa only [Operator.spaced, List.append_assoc, List.cons_append, List.nil_append] using hlies
    exact (hblank.after (w := [Bytes.space]) (by decide)).foothold
  | var | bool | number | text | array | call | index | member | method =>
    obtain ⟨t, -, hlies⟩ := h
    exact hlies.foothold

theorem Expr.Sits.foothold {e : Expr Nat} (h : e.Sits source) : Foothold source e.mark :=
  h.writtenAt.foothold

/-- **Operands, operators and items are in order.** -/
theorem Expr.Sits.inOrder {e : Expr Nat} (h : e.Sits source) :
    e.InOrder fun k k' => Foothold source k ∧ Foothold source k' ∧ k < k' := by
  -- items are spelled one behind the other, and so their marks are in order
  have hitems : ∀ {es : List (Expr Nat)} {o : Nat} {t : Bytes}, (∀ c ∈ es, c ∈ e.children) →
      Expr.ItemsSpellAt o es t → es.Pairwise fun c c' =>
        Foothold source c.mark ∧ Foothold source c'.mark ∧ c.mark < c'.mark := by
    intro es o t hes hspells
    have hlt := pairwise_lt_of_itemsAt (f := Expr.mark) (by decide) Expr.mark_range
      (Expr.itemsSpellAt_iff.1 hspells)
    refine (List.Pairwise.and_mem.1 hlt).imp fun ⟨hc, hc', hlt⟩ => ?_
    exact ⟨(h.of_mem_children (hes _ hc)).foothold, (h.of_mem_children (hes _ hc')).foothold, hlt⟩
  obtain ⟨o, t, hspells, hlies⟩ := id h
  cases e with
  | var | bool | number | text | index | member => trivial
  | array mark items | call mark name items =>
    obtain ⟨-, u, hu, -⟩ := hspells
    exact hitems (fun _ hc => hc) hu
  | method mark object name items =>
    obtain ⟨-, u, v, -, hv, -⟩ := hspells
    exact hitems (fun _ hc => List.mem_cons_of_mem _ hc) hv
  | binary mark op left right =>
    obtain ⟨u, v, hu, rfl, hv, rfl⟩ := hspells
    have hleft := (h.of_mem_children (c := left) (by simp [children])).foothold
    have hright := (h.of_mem_children (c := right) (by simp [children])).foothold
    have hwidth : 2 ≤ op.spaced.length := by simp [Operator.spaced]
    have hu := (Expr.mark_range hu).2
    have hv := (Expr.mark_range hv).1
    exact ⟨⟨hleft, h.foothold, by omega⟩, ⟨h.foothold, hright, by omega⟩⟩

/-- A node stands in the source at the offsets that it is marked with. -/
def Node.Sits (source : Bytes) : Node Nat → Prop
  | .stmt s => s.Sits source
  | .clause c => c.Sits source
  | .expr e => e.Sits source

/-- Every node of a clause that sits in the source sits there, too. -/
theorem Clause.Sits.of_mem_nodes {c : Clause Nat} {n : Node Nat} (h : c.Sits source)
    (hn : n ∈ c.nodes) : n.Sits source := by
  rcases List.mem_cons.1 hn with rfl | hn
  · exact h
  · obtain ⟨p, hp, rfl⟩ := List.mem_map.1 hn
    exact h.of_mem_parts hp

/-- The nodes of conditionals and loops, given those of the condition and the body. -/
theorem sits_of_mem_block {condition : Expr Nat} {body : List (Clause Nat)} {n : Node Nat}
    (h : condition.Sits source ∧ ∀ c ∈ body, c.Sits source)
    (hn : n ∈ condition.parts.map Node.expr ++ body.flatMap Clause.nodes) : n.Sits source := by
  rcases List.mem_append.1 hn with hn | hn
  · obtain ⟨p, hp, rfl⟩ := List.mem_map.1 hn
    exact h.1.of_mem_parts hp
  · obtain ⟨c, hc, hn⟩ := List.mem_flatMap.1 hn
    exact (h.2 c hc).of_mem_nodes hn

/-- **All nodes of a statement stand in the source** when the statement does. -/
theorem Stmt.Sits.of_mem_nodes {s : Stmt Nat} {n : Node Nat} (h : s.Sits source)
    (hn : n ∈ s.nodes) : n.Sits source := by
  obtain ⟨o, t, hspells, hlies⟩ := id h
  cases s with
  | clause c => exact Clause.Sits.of_mem_nodes ⟨o, t, hspells, hlies⟩ hn
  | func name f =>
    obtain ⟨-, u, v, -, hv, rfl⟩ := hspells
    rcases List.mem_cons.1 hn with rfl | hn
    · exact h
    · obtain ⟨c, hc, hn⟩ := List.mem_flatMap.1 hn
      exact (Clause.sits_of_body hlies hv c hc).of_mem_nodes hn
  | cond mark condition body | loop mark condition body =>
    obtain ⟨-, u, v, hu, hv, rfl⟩ := hspells
    rcases List.mem_cons.1 hn with rfl | hn
    · exact h
    · exact sits_of_mem_block (sits_of_block hlies (by decide) hu hv) hn

/-- A statement is marked where its text begins. -/
theorem Stmt.mark_of_spellsAt {s : Stmt Nat} (h : s.SpellsAt o t) : s.mark = o := by
  cases s with
  | clause c => exact Clause.mark_of_spellsAt h
  | func | cond | loop => exact h.1

/-- **A node that sits in the source is written at its mark.** -/
theorem Node.Sits.writtenAt {n : Node Nat} (h : n.Sits source) : n.WrittenAt source n.mark := by
  cases n with
  | stmt s =>
    obtain ⟨o, t, hspells, hlies⟩ := h
    obtain rfl := Stmt.mark_of_spellsAt hspells
    exact ⟨t, Stmt.spells_of_spellsAt hspells, hlies⟩
  | clause c =>
    obtain ⟨o, t, hspells, hlies⟩ := h
    obtain rfl := Clause.mark_of_spellsAt hspells
    exact ⟨t, Clause.spells_of_spellsAt hspells, hlies⟩
  | expr e => exact Expr.Sits.writtenAt h

theorem Node.WrittenAt.foothold {n : Node α} (h : n.WrittenAt source o) : Foothold source o := by
  cases n with
  | stmt | clause =>
    obtain ⟨t, -, hlies⟩ := h
    exact hlies.foothold
  | expr e => exact Expr.WrittenAt.foothold h

/-- The marks of a node and its children are in the order of the text. -/
theorem Node.Sits.inOrder {n : Node Nat} (h : n.Sits source) :
    n.InOrder fun k k' => Foothold source k ∧ Foothold source k' ∧ k < k' := by
  cases n with
  | stmt | clause => trivial
  | expr e => exact Expr.Sits.inOrder h

/-- **Positions lead to the text of a node.** In a script that was parsed, the position of every
node is that of exactly one foothold of the source, and there the node is written; the
positions of operands, operators and items are in order. So are those of statements and of the
clauses of bodies, and the script begins where the source does. -/
theorem positions_of_parse {script : Script} (h : parse source = .ok script) :
    script.position = Position.ofOffset source 0 ∧
    (∀ n ∈ script.statements.flatMap Stmt.nodes,
      (∃ o, Foothold source o ∧ Position.ofOffset source o = n.mark ∧ n.WrittenAt source o ∧
        ∀ k, Foothold source k → Position.ofOffset source k = n.mark → k = o) ∧
      n.InOrder fun p p' => p.before p' = true) ∧
    (script.statements.flatMap Stmt.lineMarks).Pairwise fun p p' => p.before p' = true := by
  obtain ⟨ss, hss, rfl⟩ := parse_eq_ok_iff.1 h
  obtain ⟨hspells, hwf⟩ := parseMarked_sound hss
  refine ⟨?_, fun n hn => ?_, ?_⟩
  · obtain ⟨s, ss, rfl⟩ := List.exists_cons_of_ne_nil hwf.1
    obtain ⟨t, -, -, hs, -⟩ := hspells
    exact (s.mark_map _).trans (congrArg _ (Stmt.mark_of_spellsAt hs))
  -- the node was marked with an offset before it had a position, and stands there
  · simp only [List.flatMap_map, Stmt.nodes_map, ← List.map_flatMap] at hn
    obtain ⟨n, hnodes, rfl⟩ := List.mem_map.1 hn
    obtain ⟨s, hs, hnode⟩ := List.mem_flatMap.1 hnodes
    have hsits := (Script.sits_of_spellsAt hspells s hs).of_mem_nodes hnode
    have hfoothold := hsits.writtenAt.foothold
    refine ⟨⟨n.mark, hfoothold, (n.mark_map _).symm, Node.writtenAt_map.2 hsits.writtenAt,
      fun k hk heq => ?_⟩, hsits.inOrder.map fun ⟨hk, hk', hlt⟩ => hk.before_of_lt hk' hlt⟩
    rw [Node.mark_map] at heq
    exact hk.eq_of_ofOffset_eq hfoothold heq
  · refine (pairwise_line_lt_of_parse h).imp fun {p p'} hlt => ?_
    rw [Position.before, if_neg (Nat.ne_of_lt hlt), decide_eq_true_iff]
    exact hlt

end Placed

/-! ### A sum with a character of two bytes -/

/-- The sum in the script below. -/
def quotedSum : Expr Position :=
  .binary ⟨1, 9⟩ .add (.text ⟨1, 5⟩ [0xc3, 0xa9])
    (.index ⟨1, 11⟩ (.var ⟨1, 11⟩ [98]) (.var ⟨1, 13⟩ [99]))

/-- A sum of a text between quotes and an element, and an array below it. -/
def quoted : Script :=
  ⟨Bytes.ofString "a = \"é\" + b[c]\nd = [a, b]",
    [.clause (.assign ⟨1, 1⟩ [97] quotedSum),
      .clause (.assign ⟨2, 1⟩ [100] (.array ⟨2, 5⟩ [.var ⟨2, 6⟩ [97], .var ⟨2, 9⟩ [98]]))]⟩

theorem parse_quoted : parse quoted.source = .ok quoted := by
  let sum : Expr Nat :=
    .binary 9 .add (.text 4 [0xc3, 0xa9]) (.index 11 (.var 11 [98]) (.var 13 [99]))
  let pair : Expr Nat := .array 20 [.var 21 [97], .var 24 [98]]
  have hspells : Script.SpellsAt 0 [.clause (.assign 0 [97] sum), .clause (.assign 16 [100] pair)]
      quoted.source := by
    have hsum : sum.SpellsAt 4 (Bytes.ofString "\"é\" + b[c]") :=
      ⟨_, _, ⟨rfl, rfl⟩, rfl, ⟨rfl, _, _, ⟨rfl, rfl⟩, ⟨rfl, rfl⟩, rfl⟩, rfl⟩
    have hpair : pair.SpellsAt 20 (Bytes.ofString "[a, b]") :=
      ⟨rfl, _, ⟨_, _, rfl, ⟨rfl, rfl⟩, _, _, rfl, ⟨_, rfl, rfl, rfl⟩, rfl⟩, rfl⟩
    refine ⟨_, _, ?_, ⟨rfl, _, hsum, rfl⟩, _, _, rfl, ⟨_, rfl, rfl, _, hpair, rfl⟩, rfl⟩
    rfl
  have hwf : Script.WellFormed [.clause (.assign 0 [97] sum), .clause (.assign 16 [100] pair)] := by
    have hname : ∀ b : UInt8, Bytes.isNameByte b = true → IsName [b] := fun b hb =>
      ⟨List.cons_ne_nil b [], List.forall_mem_singleton.2 hb⟩
    have hsum : sum.WellFormed :=
      ⟨by decide, by decide, show Bytes.doubleQuote ∉ [0xc3, 0xa9] by decide,
        trivial, ⟨hname 98 rfl, rfl, rfl⟩, hname 99 rfl, rfl, rfl⟩
    have hpair : pair.WellFormed := ⟨⟨hname 97 rfl, rfl, rfl⟩, ⟨hname 98 rfl, rfl, rfl⟩, trivial⟩
    exact ⟨List.cons_ne_nil _ _, List.forall_mem_cons.2 ⟨⟨hname 97 rfl, hsum, by decide⟩,
      List.forall_mem_singleton.2 ⟨hname 100 rfl, hpair, by decide⟩⟩⟩
  refine parse_eq_ok_iff.2 ⟨_, parseMarked_complete hspells hwf, ?_⟩
  rfl

/-- The plus is in column nine, as the character between the quotes counts once, and the sum is
found nowhere else. -/
theorem positions_of_quoted :
    parse quoted.source = .ok quoted ∧ ∃ o, Foothold quoted.source o ∧
      Position.ofOffset quoted.source o = ⟨1, 9⟩ ∧ quotedSum.WrittenAt quoted.source o ∧
      ∀ k, Foothold quoted.source k → Position.ofOffset quoted.source k = ⟨1, 9⟩ → k = o := by
  obtain ⟨-, hnodes, -⟩ := positions_of_parse parse_quoted
  have hsum : Node.expr quotedSum ∈ quoted.statements.flatMap Stmt.nodes :=
    List.mem_cons_of_mem _ List.mem_cons_self
  exact ⟨parse_quoted, (hnodes _ hsum).1⟩

end Scriptlet
