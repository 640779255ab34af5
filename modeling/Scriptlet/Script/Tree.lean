import Scriptlet.Source.Position

/-!
# Scripts as trees

A **script** is a list of statements, one after another on the top level: assignments,
returns, function definitions, and conditionals and loops with an indented body. A body is
flat: it holds only assignments and returns, never another block, and so it has a type of
its own, `Clause`. That one restriction carries far: functions contain no loops, so a
call always ends once the depth of calls is bounded.

Every node carries a *mark* of type `α` that says where in the source it stands. The parser
marks nodes with byte offsets; everything after it wants lines and columns; and two trees
that differ only in layout are compared by forgetting the marks. One tree type with a
parameter serves all three, and `map` goes between them.
-/

namespace Scriptlet

/-! ### Operators -/

/-- The operators that stand between two operands. -/
inductive Operator where
  | add
  | subtract
  | multiply
  | divide
  | equal
  | notEqual
  | and
  | or
  deriving DecidableEq, Repr

namespace Operator

/-- All operators, in the order of their numbers. -/
def all : List Operator :=
  [add, subtract, multiply, divide, equal, notEqual, and, or]

/-- How an operator is written. -/
def symbol : Operator → Bytes
  | add => Bytes.ofString "+"
  | subtract => Bytes.ofString "-"
  | multiply => Bytes.ofString "*"
  | divide => Bytes.ofString "/"
  | equal => Bytes.ofString "=="
  | notEqual => Bytes.ofString "!="
  | and => Bytes.ofString "and"
  | or => Bytes.ofString "or"

/-- The symbol of the operator with a given number; numbers that name none show a question
mark. -/
def symbolOfNumber (n : Int) : Bytes :=
  if n < 0 then Bytes.ofString "?"
  else match all[n.toNat]? with
    | some op => op.symbol
    | none => Bytes.ofString "?"

end Operator

/-! ### Trees -/

/-- Expressions, with a mark on every node. -/
inductive Expr (α : Type) where
  /-- A variable. -/
  | var (mark : α) (name : Bytes)
  /-- A truth value. -/
  | bool (mark : α) (value : Bool)
  /-- A number. -/
  | number (mark : α) (value : Float)
  /-- A text between quotes. -/
  | text (mark : α) (value : Bytes)
  /-- A list of expressions between brackets. -/
  | array (mark : α) (elements : List (Expr α))
  /-- Two operands; the mark is that of the operator. -/
  | binary (mark : α) (op : Operator) (left right : Expr α)
  /-- The call of a named function. -/
  | call (mark : α) (name : Bytes) (args : List (Expr α))
  /-- An element of an array. -/
  | index (mark : α) (object place : Expr α)
  /-- A property of a value. -/
  | member (mark : α) (object : Expr α) (property : Bytes)
  /-- The call of a built-in method of a value. -/
  | method (mark : α) (object : Expr α) (name : Bytes) (args : List (Expr α))

/-- What a body may hold. -/
inductive Clause (α : Type) where
  /-- Binds a name. -/
  | assign (mark : α) (name : Bytes) (value : Expr α)
  /-- Ends a function with a value. -/
  | ret (mark : α) (value : Expr α)

/-- A function: its parameters and its body. -/
structure Func (α : Type) where
  /-- The mark of the definition. -/
  mark : α
  /-- The names of the parameters. -/
  params : List Bytes
  /-- The body, possibly empty. -/
  body : List (Clause α)

/-- A statement of the top level. -/
inductive Stmt (α : Type) where
  /-- An assignment or a return. -/
  | clause (c : Clause α)
  /-- The definition of a function. -/
  | func (name : Bytes) (f : Func α)
  /-- A body that runs when the condition holds. -/
  | cond (mark : α) (condition : Expr α) (body : List (Clause α))
  /-- A body that runs as long as the condition holds. -/
  | loop (mark : α) (condition : Expr α) (body : List (Clause α))

/-! ### Marks -/

/-- The mark of an expression. -/
def Expr.mark {α : Type} : Expr α → α
  | .var m _ | .bool m _ | .number m _ | .text m _ | .array m _ | .binary m _ _ _
  | .call m _ _ | .index m _ _ | .member m _ _ | .method m _ _ _ => m

/-- The mark of a clause. -/
def Clause.mark {α : Type} : Clause α → α
  | .assign m _ _ | .ret m _ => m

/-- The mark of a statement. -/
def Stmt.mark {α : Type} : Stmt α → α
  | .clause c => c.mark
  | .func _ f => f.mark
  | .cond m _ _ | .loop m _ _ => m

mutual

/-- The same expression with every mark changed by `f`. -/
def Expr.map {α β : Type} (f : α → β) : Expr α → Expr β
  | .var m name => .var (f m) name
  | .bool m value => .bool (f m) value
  | .number m value => .number (f m) value
  | .text m value => .text (f m) value
  | .array m elements => .array (f m) (Expr.mapList f elements)
  | .binary m op left right => .binary (f m) op (left.map f) (right.map f)
  | .call m name args => .call (f m) name (Expr.mapList f args)
  | .index m object place => .index (f m) (object.map f) (place.map f)
  | .member m object property => .member (f m) (object.map f) property
  | .method m object name args => .method (f m) (object.map f) name (Expr.mapList f args)

/-- The same expressions with every mark changed by `f`. -/
def Expr.mapList {α β : Type} (f : α → β) : List (Expr α) → List (Expr β)
  | [] => []
  | e :: es => e.map f :: Expr.mapList f es

end

/-- The same clause with every mark changed by `f`. -/
def Clause.map {α β : Type} (f : α → β) : Clause α → Clause β
  | .assign m name value => .assign (f m) name (value.map f)
  | .ret m value => .ret (f m) (value.map f)

/-- The same function with every mark changed by `f`. -/
def Func.map {α β : Type} (f : α → β) (fn : Func α) : Func β :=
  ⟨f fn.mark, fn.params, fn.body.map (Clause.map f)⟩

/-- The same statement with every mark changed by `f`. -/
def Stmt.map {α β : Type} (f : α → β) : Stmt α → Stmt β
  | .clause c => .clause (c.map f)
  | .func name fn => .func name (fn.map f)
  | .cond m condition body => .cond (f m) (condition.map f) (body.map (Clause.map f))
  | .loop m condition body => .loop (f m) (condition.map f) (body.map (Clause.map f))

/-! ### Scripts -/

/-- A script: its statements, and the source they were read from, which error messages
quote. -/
structure Script where
  /-- The text the script was read from. -/
  source : Bytes
  /-- The statements of the top level. -/
  statements : List (Stmt Position)

namespace Script

/-- The script without statements. -/
def empty : Script := ⟨[], []⟩

/-- Where a script begins: at its first statement. -/
def position (s : Script) : Position :=
  match s.statements with
  | [] => .none
  | stmt :: _ => stmt.mark

end Script

end Scriptlet
