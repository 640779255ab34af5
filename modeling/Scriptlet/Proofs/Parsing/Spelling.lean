import Mathlib.Data.List.Forall2
import Scriptlet.Proofs.Parsing.Reading
import Scriptlet.Proofs.Text.Lines
import Scriptlet.Proofs.Tree

/-!
# How scripts are spelled

The layout of a script is fixed down to the last blank, so a tree has hardly any choice in how it
is written: only a number may be spelled in many ways, by any run of digits that
denotes it. **`Script.Spells`** says which texts are spellings of a list of statements; the marks on
the nodes play no part in it.

Not every tree has a text that reads back as it. A tree is **well formed** when it is one of
those that the grammar can build: operands bind more tightly than their operator, only a
primary has a postfix form, names are names, a variable does not begin like a truth value,
a text holds no quote, and brackets are not nested too deeply.

Neither notion mentions the parser. The parser works with offsets, though, and an induction over
it needs to know where each part begins; so there is a second, more precise reading of
the same layout, `Expr.SpellsAt` and its companions, for trees marked with offsets: a text
spells a marked tree at an offset when the marks are those of the places where the nodes begin. A
tree has a spelling exactly when it can be marked so (`Script.spells_iff_spellsAt`).
-/

namespace Scriptlet

variable {α : Type}

/-! ### Names, numbers and operators -/

/-- A name: a non-empty run of lower-case letters and underscores. -/
def IsName (name : Bytes) : Prop :=
  name ≠ [] ∧ ∀ b ∈ name, Bytes.isNameByte b = true

/-- A run of digits that denotes the number `x`. -/
def IsNumeral (x : Float) (s : Bytes) : Prop :=
  s ≠ [] ∧ (∀ b ∈ s, Bytes.isDigit b = true) ∧ Float.ofNat (Bytes.toNat s) = x

/-- How tightly an operator binds: logic is loosest, then comparison, multiplication and, tightest,
addition. -/
def Operator.level : Operator → Nat
  | .and | .or => 0
  | .equal | .notEqual => 1
  | .multiply | .divide => 2
  | .add | .subtract => 3

/-- An operator with its blanks. -/
def Operator.spaced (op : Operator) : Bytes :=
  Bytes.space :: op.symbol ++ [Bytes.space]

/-! ### Well-formed trees -/

/-- The level of an expression: that of its operator, and above all operators for what has
none. -/
def Expr.level : Expr α → Nat
  | .binary _ op _ _ => op.level
  | _ => 4

/-- What may have a postfix form. -/
def Expr.IsPrimary : Expr α → Prop
  | .var .. | .bool .. | .number .. | .text .. | .array .. => True
  | .binary .. | .call .. | .index .. | .member .. | .method .. => False

theorem Expr.IsPrimary.le_level {e : Expr α} (h : e.IsPrimary) : 4 ≤ e.level := by
  cases e with
  | binary => exact False.elim h
  | var | bool | number | text | array | call | index | member | method => exact Nat.le_refl 4

mutual

/-- How many brackets of arrays, arguments and indices are open at once. -/
def Expr.nesting : Expr α → Nat
  | .var .. | .bool .. | .number .. | .text .. => 0
  | .array _ elements => Expr.nestingList elements + 1
  | .binary _ _ left right => max left.nesting right.nesting
  | .call _ _ args => Expr.nestingList args + 1
  | .index _ object place => max object.nesting (place.nesting + 1)
  | .member _ object _ => object.nesting
  | .method _ object _ args => max object.nesting (Expr.nestingList args + 1)

/-- The greatest nesting of several expressions. -/
def Expr.nestingList : List (Expr α) → Nat
  | [] => 0
  | e :: es => max e.nesting (Expr.nestingList es)

end

mutual

/-- An expression that the grammar can build, however deep. -/
def Expr.WellFormed : Expr α → Prop
  | .var _ name =>
    IsName name ∧ Bytes.beginsWith name (Bytes.ofString "true") = false ∧
      Bytes.beginsWith name (Bytes.ofString "false") = false
  | .bool .. | .number .. => True
  | .text _ value => Bytes.doubleQuote ∉ value
  | .array _ elements => Expr.AllWellFormed elements
  | .binary _ op left right =>
    op.level < left.level ∧ op.level < right.level ∧ left.WellFormed ∧ right.WellFormed
  | .call _ name args => IsName name ∧ Expr.AllWellFormed args
  | .index _ object place => object.IsPrimary ∧ object.WellFormed ∧ place.WellFormed
  | .member _ object property => object.IsPrimary ∧ object.WellFormed ∧ IsName property
  | .method _ object name args =>
    object.IsPrimary ∧ object.WellFormed ∧ IsName name ∧ Expr.AllWellFormed args

/-- Several expressions that the grammar can build. -/
def Expr.AllWellFormed : List (Expr α) → Prop
  | [] => True
  | e :: es => e.WellFormed ∧ Expr.AllWellFormed es

end

/-- A clause that the grammar can build, with at most 1000 brackets open at once. -/
def Clause.WellFormed : Clause α → Prop
  | .assign _ name value => IsName name ∧ value.WellFormed ∧ value.nesting ≤ 1000
  | .ret _ value => value.WellFormed ∧ value.nesting ≤ 1000

/-- A statement that the grammar can build. -/
def Stmt.WellFormed : Stmt α → Prop
  | .clause c => c.WellFormed
  | .func name f => IsName name ∧ (∀ p ∈ f.params, IsName p) ∧ ∀ c ∈ f.body, c.WellFormed
  | .cond _ condition body | .loop _ condition body =>
    condition.WellFormed ∧ condition.nesting ≤ 1000 ∧ ∀ c ∈ body, c.WellFormed

/-- **A list of statements that the grammar can build**: there is at least one. -/
def Script.WellFormed (statements : List (Stmt α)) : Prop :=
  statements ≠ [] ∧ ∀ s ∈ statements, s.WellFormed

/-! ### Spellings -/

mutual

/-- **The spellings of an expression.** -/
def Expr.Spells : Expr α → Bytes → Prop
  | .var _ name, s => s = name
  | .bool _ b, s => s = Bytes.ofString (if b then "true" else "false")
  | .number _ x, s => IsNumeral x s
  | .text _ value, s => s = Bytes.doubleQuote :: value ++ [Bytes.doubleQuote]
  | .array _ elements, s =>
    ∃ us, Expr.SpellsAll elements us ∧
      s = Bytes.ofString "[" ++ Bytes.join (Bytes.ofString ", ") us ++ Bytes.ofString "]"
  | .binary _ op left right, s => ∃ u v, left.Spells u ∧ right.Spells v ∧ s = u ++ op.spaced ++ v
  | .call _ name args, s =>
    ∃ us, Expr.SpellsAll args us ∧
      s = name ++ Bytes.ofString "(" ++ Bytes.join (Bytes.ofString ", ") us ++ Bytes.ofString ")"
  | .index _ object place, s =>
    ∃ u v, object.Spells u ∧ place.Spells v ∧
      s = u ++ Bytes.ofString "[" ++ v ++ Bytes.ofString "]"
  | .member _ object property, s =>
    ∃ u, object.Spells u ∧ s = u ++ Bytes.ofString "." ++ property
  | .method _ object name args, s =>
    ∃ u us, object.Spells u ∧ Expr.SpellsAll args us ∧
      s = u ++ Bytes.ofString "." ++ name ++ Bytes.ofString "(" ++
        Bytes.join (Bytes.ofString ", ") us ++ Bytes.ofString ")"

/-- The spellings of several expressions, one for each. -/
def Expr.SpellsAll : List (Expr α) → List Bytes → Prop
  | [], us => us = []
  | e :: es, us => ∃ u us', us = u :: us' ∧ e.Spells u ∧ Expr.SpellsAll es us'

end

/-- The spellings of a clause. -/
def Clause.Spells : Clause α → Bytes → Prop
  | .assign _ name value, s => ∃ u, value.Spells u ∧ s = name ++ Bytes.ofString " = " ++ u
  | .ret _ value, s => ∃ u, value.Spells u ∧ s = Bytes.ofString "return " ++ u

/-- Lines of a body, each on a new line after four blanks. -/
def indented (lines : List Bytes) : Bytes :=
  lines.flatMap (Bytes.ofString "\n    " ++ ·)

/-- The spellings of a statement. -/
def Stmt.Spells : Stmt α → Bytes → Prop
  | .clause c, s => c.Spells s
  | .func name f, s =>
    ∃ us, List.Forall₂ Clause.Spells f.body us ∧
      s = Bytes.ofString "func " ++ name ++ Bytes.ofString "(" ++
        Bytes.join (Bytes.ofString ", ") f.params ++ Bytes.ofString ")" ++ indented us
  | .cond _ condition body, s =>
    ∃ u us, condition.Spells u ∧ List.Forall₂ Clause.Spells body us ∧
      s = Bytes.ofString "if " ++ u ++ indented us
  | .loop _ condition body, s =>
    ∃ u us, condition.Spells u ∧ List.Forall₂ Clause.Spells body us ∧
      s = Bytes.ofString "while " ++ u ++ indented us

/-- **The spellings of a list of statements**: those of the statements with a line feed between
neighbours. -/
def Script.Spells (statements : List (Stmt α)) (s : Bytes) : Prop :=
  ∃ us, List.Forall₂ Stmt.Spells statements us ∧ s = Bytes.join (Bytes.ofString "\n") us

/-! ### Spellings at an offset -/

open Scriptlet.Parser

mutual

/-- The text spells the expression at the offset `o`, and its marks are those of the places where
its nodes begin, a binary node being marked at its operator. -/
def Expr.SpellsAt : (o : Nat) → Expr Nat → Bytes → Prop
  | o, .var mark name, t => mark = o ∧ t = name
  | o, .bool mark b, t => mark = o ∧ t = Bytes.ofString (if b then "true" else "false")
  | o, .number mark x, t => mark = o ∧ IsNumeral x t
  | o, .text mark value, t =>
    mark = o ∧ t = Bytes.doubleQuote :: value ++ [Bytes.doubleQuote]
  | o, .array mark elements, t =>
    mark = o ∧ ∃ u, Expr.ItemsSpellAt (o + 1) elements u ∧
      t = Bytes.ofString "[" ++ (u ++ Bytes.ofString "]")
  | o, .binary mark op left right, t =>
    ∃ u v, left.SpellsAt o u ∧ mark = o + u.length + 1 ∧
      right.SpellsAt (o + u.length + op.spaced.length) v ∧ t = u ++ (op.spaced ++ v)
  | o, .call mark name args, t =>
    mark = o ∧ ∃ u, Expr.ItemsSpellAt (o + name.length + 1) args u ∧
      t = name ++ (Bytes.ofString "(" ++ (u ++ Bytes.ofString ")"))
  | o, .index mark object place, t =>
    mark = o ∧ ∃ u v, object.SpellsAt o u ∧ place.SpellsAt (o + u.length + 1) v ∧
      t = u ++ (Bytes.ofString "[" ++ (v ++ Bytes.ofString "]"))
  | o, .member mark object property, t =>
    mark = o ∧ ∃ u, object.SpellsAt o u ∧ t = u ++ (Bytes.ofString "." ++ property)
  | o, .method mark object name args, t =>
    mark = o ∧ ∃ u v, object.SpellsAt o u ∧
      Expr.ItemsSpellAt (o + u.length + 1 + name.length + 1) args v ∧
      t = u ++ (Bytes.ofString "." ++ (name ++
        (Bytes.ofString "(" ++ (v ++ Bytes.ofString ")"))))

/-- Several expressions with commas between them, from the offset `o` on. -/
def Expr.ItemsSpellAt : (o : Nat) → List (Expr Nat) → Bytes → Prop
  | _, [], t => t = []
  | o, e :: es, t => ∃ t₁ t₂, t = t₁ ++ t₂ ∧ e.SpellsAt o t₁ ∧
      Expr.OthersSpellAt (o + t₁.length) es t₂

/-- Several expressions with a comma before each, from the offset `o` on. -/
def Expr.OthersSpellAt : (o : Nat) → List (Expr Nat) → Bytes → Prop
  | _, [], t => t = []
  | o, e :: es, t => ∃ t₁ t₂, t = t₁ ++ t₂ ∧
      (∃ u, t₁ = Bytes.ofString ", " ++ u ∧ e.SpellsAt (o + (Bytes.ofString ", ").length) u) ∧
      Expr.OthersSpellAt (o + t₁.length) es t₂

end

theorem Expr.othersSpellAt_iff {o : Nat} {es : List (Expr Nat)} {t : Bytes} :
    Expr.OthersSpellAt o es t ↔ EachAt (After (Bytes.ofString ", ") Expr.SpellsAt) o es t := by
  induction es generalizing o t with
  | nil => exact Iff.rfl
  | cons e es ih => simp only [Expr.OthersSpellAt, EachAt, After, ih]

theorem Expr.itemsSpellAt_iff {o : Nat} {es : List (Expr Nat)} {t : Bytes} :
    Expr.ItemsSpellAt o es t ↔ ItemsAt (Bytes.ofString ", ") Expr.SpellsAt o es t := by
  cases es with
  | nil => exact Iff.rfl
  | cons e es => simp only [Expr.ItemsSpellAt, ItemsAt, Expr.othersSpellAt_iff]

/-- A clause spelled at an offset. -/
def Clause.SpellsAt : (o : Nat) → Clause Nat → Bytes → Prop
  | o, .assign mark name value, t =>
    mark = o ∧ ∃ u, value.SpellsAt (o + name.length + 3) u ∧
      t = name ++ (Bytes.ofString " = " ++ u)
  | o, .ret mark value, t =>
    mark = o ∧ ∃ u, value.SpellsAt (o + 7) u ∧ t = Bytes.ofString "return " ++ u

/-- The clauses of a body, each on an indented line, from the offset `o` on. -/
def Clause.BodySpellsAt : (o : Nat) → List (Clause Nat) → Bytes → Prop :=
  EachAt (After (Bytes.ofString "\n    ") Clause.SpellsAt)

/-- A statement spelled at an offset. -/
def Stmt.SpellsAt : (o : Nat) → Stmt Nat → Bytes → Prop
  | o, .clause c, t => c.SpellsAt o t
  | o, .func name f, t =>
    f.mark = o ∧ ∃ u v, u = Bytes.ofString "func " ++ (name ++ (Bytes.ofString "(" ++
        (Bytes.join (Bytes.ofString ", ") f.params ++ Bytes.ofString ")"))) ∧
      Clause.BodySpellsAt (o + u.length) f.body v ∧ t = u ++ v
  | o, .cond mark condition body, t =>
    mark = o ∧ ∃ u v, condition.SpellsAt (o + 3) u ∧
      Clause.BodySpellsAt (o + 3 + u.length) body v ∧ t = Bytes.ofString "if " ++ (u ++ v)
  | o, .loop mark condition body, t =>
    mark = o ∧ ∃ u v, condition.SpellsAt (o + 6) u ∧
      Clause.BodySpellsAt (o + 6 + u.length) body v ∧ t = Bytes.ofString "while " ++ (u ++ v)

/-- **Statements spelled at an offset**, with line feeds between them. -/
def Script.SpellsAt : (o : Nat) → List (Stmt Nat) → Bytes → Prop :=
  ItemsAt (Bytes.ofString "\n") Stmt.SpellsAt

/-! ### Forgetting offsets, and finding them -/

section Marks

variable {β : Type} {R : Nat → α → Bytes → Prop} {Q : β → Bytes → Prop} {f : α → β} {sep : Bytes}

/-- A text is cut at its first separator. -/
theorem Bytes.cut?_eq_some_iff {sep : UInt8} {s before rest : Bytes} :
    Bytes.cut? sep s = some (before, rest) ↔ s = before ++ sep :: rest ∧ sep ∉ before := by
  induction s generalizing before rest with
  | nil => simp [Bytes.cut?]
  | cons b s ih =>
    rw [Bytes.cut?]
    -- the text is cut here, or as its rest is
    by_cases hb : b = sep
    · subst hb
      rw [if_pos rfl]
      cases before with
      | nil => simp
      | cons x before =>
        simp only [Option.some.injEq, Prod.mk.injEq, reduceCtorEq, false_and, List.cons_append,
          List.cons.injEq, List.mem_cons, not_or, false_iff, not_and]
        rintro ⟨rfl, -⟩ hx
        exact absurd rfl hx
    · rw [if_neg hb]
      cases before with
      | nil => simp [hb]
      | cons x before =>
        simp only [Option.map_eq_some_iff, Prod.mk.injEq, List.cons.injEq, Prod.exists, ih,
          List.cons_append, List.mem_cons, not_or]
        constructor
        · rintro ⟨u, v, ⟨rfl, hu⟩, ⟨rfl, rfl⟩, rfl⟩
          exact ⟨⟨rfl, rfl⟩, Ne.symm hb, hu⟩
        · rintro ⟨⟨rfl, rfl⟩, -, hu⟩
          exact ⟨before, rest, ⟨rfl, hu⟩, ⟨rfl, rfl⟩, rfl⟩

/-- Items with a separator before each give a list of texts, one for each item. -/
theorem forall₂_of_eachAt {as : List α} {o : Nat} {t : Bytes} (hE : EachAt (After sep R) o as t)
    (h : ∀ a ∈ as, ∀ {o t}, R o a t → Q (f a) t) :
    ∃ us, List.Forall₂ Q (as.map f) us ∧ t = us.flatMap (sep ++ ·) := by
  induction as generalizing o t with
  | nil => exact ⟨[], .nil, hE⟩
  | cons a as ih =>
    obtain ⟨t₁, t₂, rfl, ⟨u, rfl, hR⟩, hE⟩ := hE
    obtain ⟨us, hus, rfl⟩ := ih hE fun a' ha' => h a' (List.mem_cons_of_mem a ha')
    exact ⟨u :: us, .cons (h a List.mem_cons_self hR) hus, by simp⟩

/-- Items with separators between them give a list of texts, one for each item. -/
theorem forall₂_of_itemsAt {as : List α} {o : Nat} {t : Bytes} (hI : ItemsAt sep R o as t)
    (h : ∀ a ∈ as, ∀ {o t}, R o a t → Q (f a) t) :
    ∃ us, List.Forall₂ Q (as.map f) us ∧ t = Bytes.join sep us := by
  cases as with
  | nil => exact ⟨[], .nil, hI⟩
  | cons a as =>
    obtain ⟨t₁, t₂, rfl, hR, hE⟩ := hI
    obtain ⟨us, hus, rfl⟩ := forall₂_of_eachAt hE fun a' ha' => h a' (List.mem_cons_of_mem a ha')
    exact ⟨t₁ :: us, .cons (h a List.mem_cons_self hR) hus, (Bytes.join_cons sep t₁ us).symm⟩

/-- Texts of items, each behind a separator, can be read as marked items from any offset on. -/
theorem exists_eachAt_of_forall₂ {bs : List β} {us : List Bytes} (hQ : List.Forall₂ Q bs us)
    (h : ∀ b ∈ bs, ∀ {u}, Q b u → ∀ o, ∃ a, f a = b ∧ R o a u) (o : Nat) :
    ∃ as, as.map f = bs ∧ EachAt (After sep R) o as (us.flatMap (sep ++ ·)) := by
  induction hQ generalizing o with
  | nil => exact ⟨[], rfl, rfl⟩
  | @cons b u bs us hb _ ih =>
    obtain ⟨a, rfl, hR⟩ := h b List.mem_cons_self hb (o + sep.length)
    obtain ⟨as, rfl, hE⟩ := ih (fun b' hb' => h b' (List.mem_cons_of_mem _ hb'))
      (o + (sep ++ u).length)
    exact ⟨a :: as, rfl, sep ++ u, _, List.flatMap_cons, ⟨u, rfl, hR⟩, hE⟩

/-- Texts of items with separators between them can be read so, too. -/
theorem exists_itemsAt_of_forall₂ {bs : List β} {us : List Bytes} (hQ : List.Forall₂ Q bs us)
    (h : ∀ b ∈ bs, ∀ {u}, Q b u → ∀ o, ∃ a, f a = b ∧ R o a u) (o : Nat) :
    ∃ as, as.map f = bs ∧ ItemsAt sep R o as (Bytes.join sep us) := by
  cases hQ with
  | nil => exact ⟨[], rfl, rfl⟩
  | @cons b u bs us hb hbs =>
    obtain ⟨a, rfl, hR⟩ := h b List.mem_cons_self hb o
    obtain ⟨as, rfl, hE⟩ := exists_eachAt_of_forall₂ hbs
      (fun b' hb' => h b' (List.mem_cons_of_mem _ hb')) (o + u.length)
    exact ⟨a :: as, rfl, u, _, Bytes.join_cons sep u us, hR, hE⟩

end Marks

/-- Texts spell a list of expressions one by one. -/
theorem Expr.spellsAll_iff {es : List (Expr α)} {us : List Bytes} :
    Expr.SpellsAll es us ↔ List.Forall₂ Expr.Spells es us := by
  induction es generalizing us with
  | nil => simp [Expr.SpellsAll]
  | cons e es ih =>
    rw [Expr.SpellsAll, List.forall₂_cons_left_iff]
    simp only [ih]
    constructor
    · rintro ⟨u, us', rfl, hu, hus⟩
      exact ⟨u, us', hu, hus, rfl⟩
    · rintro ⟨u, us', hu, hus, rfl⟩
      exact ⟨u, us', rfl, hu, hus⟩

/-- **Forgetting the offsets**: a text that spells a marked expression somewhere spells it. -/
theorem Expr.spells_of_spellsAt {e : Expr Nat} {o : Nat} {t : Bytes} (h : e.SpellsAt o t) :
    e.bare.Spells t := by
  -- texts of items are joined by commas, whatever their offsets are
  have hlist : ∀ {es : List (Expr Nat)} {o : Nat} {t : Bytes},
      (∀ e ∈ es, ∀ {o t}, e.SpellsAt o t → e.bare.Spells t) → Expr.ItemsSpellAt o es t →
      ∃ us, Expr.SpellsAll (Expr.mapList (fun _ => ()) es) us ∧
        t = Bytes.join (Bytes.ofString ", ") us := by
    intro es o t ih hI
    rw [Expr.mapList_eq_map]
    simp only [Expr.spellsAll_iff]
    exact forall₂_of_itemsAt (Expr.itemsSpellAt_iff.1 hI) ih
  induction e generalizing o t with
  | var mark name => exact h.2
  | bool mark b => exact h.2
  | number mark x => exact h.2
  | text mark value => exact h.2
  | array mark elements ih =>
    obtain ⟨-, u, hu, rfl⟩ := h
    obtain ⟨us, hus, rfl⟩ := hlist ih hu
    exact ⟨us, hus, by simp⟩
  | binary mark op left right ihl ihr =>
    obtain ⟨u, v, hu, -, hv, rfl⟩ := h
    exact ⟨u, v, ihl hu, ihr hv, by simp⟩
  | call mark name args ih =>
    obtain ⟨-, u, hu, rfl⟩ := h
    obtain ⟨us, hus, rfl⟩ := hlist ih hu
    exact ⟨us, hus, by simp⟩
  | index mark object place iho ihp =>
    obtain ⟨-, u, v, hu, hv, rfl⟩ := h
    exact ⟨u, v, iho hu, ihp hv, by simp⟩
  | member mark object property iho =>
    obtain ⟨-, u, hu, rfl⟩ := h
    exact ⟨u, iho hu, by simp⟩
  | method mark object name args iho ih =>
    obtain ⟨-, u, v, hu, hv, rfl⟩ := h
    obtain ⟨us, hus, rfl⟩ := hlist ih hv
    exact ⟨u, us, iho hu, hus, by simp⟩

/-- **Finding the offsets**: an expression can be marked along any of its spellings. -/
theorem Expr.exists_spellsAt {e : Expr Unit} {s : Bytes} (h : e.Spells s) (o : Nat) :
    ∃ e' : Expr Nat, e'.bare = e ∧ e'.SpellsAt o s := by
  -- each item is marked from the offset at which the one before it ends
  have hlist : ∀ {es : List (Expr Unit)} {us : List Bytes},
      (∀ e ∈ es, ∀ {s}, e.Spells s → ∀ o, ∃ e' : Expr Nat, e'.bare = e ∧ e'.SpellsAt o s) →
      Expr.SpellsAll es us → ∀ o, ∃ es' : List (Expr Nat),
        Expr.mapList (fun _ => ()) es' = es ∧
          Expr.ItemsSpellAt o es' (Bytes.join (Bytes.ofString ", ") us) := by
    intro es us ih hus o
    simp only [Expr.mapList_eq_map, Expr.itemsSpellAt_iff]
    exact exists_itemsAt_of_forall₂ (Expr.spellsAll_iff.1 hus) ih o
  induction e generalizing o s with
  | var mark name => exact ⟨.var o name, rfl, rfl, h⟩
  | bool mark b => exact ⟨.bool o b, rfl, rfl, h⟩
  | number mark x => exact ⟨.number o x, rfl, rfl, h⟩
  | text mark value => exact ⟨.text o value, rfl, rfl, h⟩
  | array mark elements ih =>
    obtain ⟨us, hus, rfl⟩ := h
    obtain ⟨es, rfl, hes⟩ := hlist ih hus (o + 1)
    exact ⟨.array o es, rfl, rfl, _, hes, by simp⟩
  | binary mark op left right ihl ihr =>
    obtain ⟨u, v, hu, hv, rfl⟩ := h
    obtain ⟨l, rfl, hl⟩ := ihl hu o
    obtain ⟨r, rfl, hr⟩ := ihr hv (o + u.length + op.spaced.length)
    exact ⟨.binary (o + u.length + 1) op l r, rfl, u, v, hl, rfl, hr, by simp⟩
  | call mark name args ih =>
    obtain ⟨us, hus, rfl⟩ := h
    obtain ⟨es, rfl, hes⟩ := hlist ih hus (o + name.length + 1)
    exact ⟨.call o name es, rfl, rfl, _, hes, by simp⟩
  | index mark object place iho ihp =>
    obtain ⟨u, v, hu, hv, rfl⟩ := h
    obtain ⟨e, rfl, he⟩ := iho hu o
    obtain ⟨i, rfl, hi⟩ := ihp hv (o + u.length + 1)
    exact ⟨.index o e i, rfl, rfl, u, v, he, hi, by simp⟩
  | member mark object property iho =>
    obtain ⟨u, hu, rfl⟩ := h
    obtain ⟨e, rfl, he⟩ := iho hu o
    exact ⟨.member o e property, rfl, rfl, u, he, by simp⟩
  | method mark object name args iho ih =>
    obtain ⟨u, us, hu, hus, rfl⟩ := h
    obtain ⟨e, rfl, he⟩ := iho hu o
    obtain ⟨es, rfl, hes⟩ := hlist ih hus (o + u.length + 1 + name.length + 1)
    exact ⟨.method o e name es, rfl, rfl, u, _, he, hes, by simp⟩

theorem Clause.spells_of_spellsAt {c : Clause Nat} {o : Nat} {t : Bytes} (h : c.SpellsAt o t) :
    c.bare.Spells t := by
  cases c with
  | assign mark name value =>
    obtain ⟨-, u, hu, rfl⟩ := h
    exact ⟨u, Expr.spells_of_spellsAt hu, by simp⟩
  | ret mark value =>
    obtain ⟨-, u, hu, rfl⟩ := h
    exact ⟨u, Expr.spells_of_spellsAt hu, rfl⟩

/-- A spelling of a clause tells the marks. -/
theorem Clause.exists_spellsAt {c : Clause Unit} {s : Bytes} (h : c.Spells s) (o : Nat) :
    ∃ c' : Clause Nat, c'.bare = c ∧ c'.SpellsAt o s := by
  cases c with
  | assign mark name value =>
    obtain ⟨u, hu, rfl⟩ := h
    obtain ⟨e, rfl, he⟩ := Expr.exists_spellsAt hu (o + name.length + 3)
    exact ⟨.assign o name e, rfl, rfl, u, he, by simp⟩
  | ret mark value =>
    obtain ⟨u, hu, rfl⟩ := h
    obtain ⟨e, rfl, he⟩ := Expr.exists_spellsAt hu (o + 7)
    exact ⟨.ret o e, rfl, rfl, u, he, rfl⟩

theorem Clause.spells_of_bodySpellsAt {cs : List (Clause Nat)} {o : Nat} {t : Bytes}
    (h : Clause.BodySpellsAt o cs t) :
    ∃ us, List.Forall₂ Clause.Spells (cs.map Clause.bare) us ∧ t = indented us :=
  forall₂_of_eachAt h fun _ _ => Clause.spells_of_spellsAt

theorem Clause.exists_bodySpellsAt {cs : List (Clause Unit)} {us : List Bytes}
    (h : List.Forall₂ Clause.Spells cs us) (o : Nat) :
    ∃ cs' : List (Clause Nat), cs'.map Clause.bare = cs ∧ Clause.BodySpellsAt o cs' (indented us) :=
  exists_eachAt_of_forall₂ h (fun _ _ => Clause.exists_spellsAt) o

theorem Stmt.spells_of_spellsAt {s : Stmt Nat} {o : Nat} {t : Bytes} (h : s.SpellsAt o t) :
    s.bare.Spells t := by
  cases s with
  | clause c => exact Clause.spells_of_spellsAt h
  | func name f =>
    obtain ⟨-, u, v, rfl, hv, rfl⟩ := h
    obtain ⟨us, hus, rfl⟩ := Clause.spells_of_bodySpellsAt hv
    exact ⟨us, hus, by simp [Func.map]⟩
  | cond mark condition body =>
    obtain ⟨-, u, v, hu, hv, rfl⟩ := h
    obtain ⟨us, hus, rfl⟩ := Clause.spells_of_bodySpellsAt hv
    exact ⟨u, us, Expr.spells_of_spellsAt hu, hus, by simp⟩
  | loop mark condition body =>
    obtain ⟨-, u, v, hu, hv, rfl⟩ := h
    obtain ⟨us, hus, rfl⟩ := Clause.spells_of_bodySpellsAt hv
    exact ⟨u, us, Expr.spells_of_spellsAt hu, hus, by simp⟩

theorem Stmt.exists_spellsAt {s : Stmt Unit} {t : Bytes} (h : s.Spells t) (o : Nat) :
    ∃ s' : Stmt Nat, s'.bare = s ∧ s'.SpellsAt o t := by
  cases s with
  | clause c =>
    obtain ⟨c', rfl, hc⟩ := Clause.exists_spellsAt h o
    exact ⟨.clause c', rfl, hc⟩
  | func name f =>
    obtain ⟨us, hus, rfl⟩ := h
    obtain ⟨mark, params, body⟩ := f
    obtain ⟨body', rfl, hb⟩ := Clause.exists_bodySpellsAt hus (o + (Bytes.ofString "func " ++
      (name ++ (Bytes.ofString "(" ++ (Bytes.join (Bytes.ofString ", ") params ++
        Bytes.ofString ")")))).length)
    exact ⟨.func name ⟨o, params, body'⟩, rfl, rfl, _, _, rfl, hb, by simp⟩
  | cond mark condition body =>
    obtain ⟨u, us, hu, hus, rfl⟩ := h
    obtain ⟨e, rfl, he⟩ := Expr.exists_spellsAt hu (o + 3)
    obtain ⟨body', rfl, hb⟩ := Clause.exists_bodySpellsAt hus (o + 3 + u.length)
    exact ⟨.cond o e body', rfl, rfl, u, _, he, hb, by simp⟩
  | loop mark condition body =>
    obtain ⟨u, us, hu, hus, rfl⟩ := h
    obtain ⟨e, rfl, he⟩ := Expr.exists_spellsAt hu (o + 6)
    obtain ⟨body', rfl, hb⟩ := Clause.exists_bodySpellsAt hus (o + 6 + u.length)
    exact ⟨.loop o e body', rfl, rfl, u, _, he, hb, by simp⟩

/-- **A list of statements has a spelling exactly when it can be marked along it.** -/
theorem Script.spells_iff_spellsAt {P : List (Stmt Unit)} {s : Bytes} :
    Script.Spells P s ↔ ∃ ss : List (Stmt Nat), ss.map Stmt.bare = P ∧ Script.SpellsAt 0 ss s := by
  constructor
  · rintro ⟨us, hus, rfl⟩
    exact exists_itemsAt_of_forall₂ hus (fun _ _ => Stmt.exists_spellsAt) 0
  · rintro ⟨ss, rfl, h⟩
    exact forall₂_of_itemsAt h fun _ _ => Stmt.spells_of_spellsAt

/-! ### Marks do not matter to well-formedness -/

section Map

variable {β : Type} (f : α → β)

theorem Expr.allWellFormed_iff {es : List (Expr α)} :
    Expr.AllWellFormed es ↔ ∀ e ∈ es, e.WellFormed := by
  induction es with
  | nil => simp [Expr.AllWellFormed]
  | cons e es ih => simp [Expr.AllWellFormed, ih]

/-- A list is as deep as the deepest of its members. -/
theorem Expr.nestingList_le_iff {es : List (Expr α)} {d : Nat} :
    Expr.nestingList es ≤ d ↔ ∀ e ∈ es, e.nesting ≤ d := by
  induction es with
  | nil => simp [Expr.nestingList]
  | cons e es ih => rw [Expr.nestingList, Nat.max_le, ih, List.forall_mem_cons]

/-- How tightly an expression binds does not depend on its marks. -/
@[simp] theorem Expr.level_map (e : Expr α) : (e.map f).level = e.level := by
  cases e <;> rfl

@[simp] theorem Expr.isPrimary_map {e : Expr α} : (e.map f).IsPrimary ↔ e.IsPrimary := by
  cases e <;> exact Iff.rfl

/-- How deep its brackets are does not depend on them. -/
@[simp] theorem Expr.nesting_map (e : Expr α) : (e.map f).nesting = e.nesting := by
  have hlist : ∀ es : List (Expr α), (∀ e ∈ es, (e.map f).nesting = e.nesting) →
      Expr.nestingList (Expr.mapList f es) = Expr.nestingList es := by
    intro es ih
    induction es with
    | nil => rfl
    | cons e es ihes =>
      rw [Expr.mapList, Expr.nestingList, Expr.nestingList, ih e List.mem_cons_self,
        ihes fun e' he' => ih e' (List.mem_cons_of_mem e he')]
  induction e with
  | var | bool | number | text => rfl
  | array mark elements ih => simp only [map, nesting, hlist elements ih]
  | binary mark op left right ihl ihr => simp only [map, nesting, ihl, ihr]
  | call mark name args ih => simp only [map, nesting, hlist args ih]
  | index mark object place iho ihp => simp only [map, nesting, iho, ihp]
  | member mark object property iho => simp only [map, nesting, iho]
  | method mark object name args iho ih => simp only [map, nesting, iho, hlist args ih]

/-- Whether the grammar can build an expression does not depend on them. -/
@[simp] theorem Expr.wellFormed_map {e : Expr α} : (e.map f).WellFormed ↔ e.WellFormed := by
  have hlist : ∀ es : List (Expr α), (∀ e ∈ es, ((e.map f).WellFormed ↔ e.WellFormed)) →
      (Expr.AllWellFormed (Expr.mapList f es) ↔ Expr.AllWellFormed es) := by
    intro es ih
    rw [Expr.allWellFormed_iff, Expr.allWellFormed_iff, Expr.mapList_eq_map, List.forall_mem_map]
    exact forall₂_congr ih
  induction e with
  | var | bool | number | text => exact Iff.rfl
  | array mark elements ih => simp only [map, WellFormed, hlist elements ih]
  | binary mark op left right ihl ihr => simp only [map, WellFormed, level_map, ihl, ihr]
  | call mark name args ih => simp only [map, WellFormed, hlist args ih]
  | index mark object place iho ihp => simp only [map, WellFormed, isPrimary_map, iho, ihp]
  | member mark object property iho => simp only [map, WellFormed, isPrimary_map, iho]
  | method mark object name args iho ih =>
    simp only [map, WellFormed, isPrimary_map, iho, hlist args ih]

@[simp] theorem Clause.wellFormed_map {c : Clause α} : (c.map f).WellFormed ↔ c.WellFormed := by
  cases c <;> simp [map, WellFormed]

@[simp] theorem Stmt.wellFormed_map {s : Stmt α} : (s.map f).WellFormed ↔ s.WellFormed := by
  cases s <;> simp [map, Func.map, WellFormed]

theorem Script.wellFormed_map {ss : List (Stmt α)} :
    Script.WellFormed (ss.map (Stmt.map f)) ↔ Script.WellFormed ss := by
  simp [Script.WellFormed]

end Map

end Scriptlet
