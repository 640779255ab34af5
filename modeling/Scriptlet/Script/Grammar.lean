import Scriptlet.Script.Parser
import Scriptlet.Script.Tree

/-!
# The grammar of scripts

Layout is fixed: one blank around an operator, a comma and a blank between items, four
blanks before the clauses of a body, one line feed between statements, nothing else.
A binary operator joins two operands of the next tighter level and does not chain, so
`1 + 2 + 3` is no expression; the levels are, from loose to tight, logic, comparison,
multiplication, addition, and then a single postfix form after a primary.

**Recursion goes through brackets only.** An expression holds another one only between the
brackets of an array, an index or an argument list, and at most `maxNesting` of them may be
open at once. So the parser for expressions is a recursion on the number of brackets that
may still be opened: every rule below takes the parser `inner?` to use between brackets,
which is absent when none may be opened any more.

Nodes are marked with the byte offset at which they begin, a binary node with that of its
operator.
-/

namespace Scriptlet

namespace Grammar

open Scriptlet.Parser

/-- How many brackets may be open at once within an expression. -/
def maxNesting : Nat := 1000

/-- A name. -/
def identifier : Parser Bytes :=
  run Bytes.isNameByte .identifier

/-- The parser for what stands between the brackets just opened. -/
def enter {α : Type} (inner? : Option (Parser α)) : Parser (Parser α) :=
  match inner? with
  | some inner => pure inner
  | none => fail .shallowerNesting

/-! ### Primaries -/

/-- An array. -/
def array (inner? : Option (Parser (Expr Nat))) : Parser (Expr Nat) := do
  let mark ← offset
  literal (Bytes.ofString "[")
  let inner ← enter inner?
  let elements ← list inner
  literal (Bytes.ofString "]")
  pure (.array mark elements)

/-- A truth value. A longer name that begins like one is cut after it. -/
def bool : Parser (Expr Nat) := do
  let mark ← offset
  (do literal (Bytes.ofString "true"); pure (.bool mark true)) <|>
    (do literal (Bytes.ofString "false"); pure (.bool mark false))

/-- A number: digits only. -/
def number : Parser (Expr Nat) := do
  let mark ← offset
  let digits ← run Bytes.isDigit .number
  pure (.number mark (Float.ofNat (Bytes.toNat digits)))

/-- The rest of a text after its opening quote: everything up to the next quote, whatever
it is. -/
def textBody : Parser Bytes := fun c =>
  match Bytes.cut? Bytes.doubleQuote c.rest with
  | some (text, rest) => ⟨some (text, ⟨c.offset + text.length + 1, rest⟩), .nothing⟩
  | none => ⟨none, .one c.offset .closingQuote⟩

/-- A text between quotes. -/
def text : Parser (Expr Nat) := do
  let mark ← offset
  literal [Bytes.doubleQuote]
  let value ← textBody
  pure (.text mark value)

/-- A variable. -/
def var : Parser (Expr Nat) := do
  let mark ← offset
  let name ← identifier
  pure (.var mark name)

/-- An expression that begins with no other. -/
def primary (inner? : Option (Parser (Expr Nat))) : Parser (Expr Nat) :=
  array inner? <|> bool <|> number <|> text <|> var

/-! ### Postfix forms -/

/-- Arguments between parentheses. -/
def arguments (inner? : Option (Parser (Expr Nat))) : Parser (List (Expr Nat)) := do
  literal (Bytes.ofString "(")
  let inner ← enter inner?
  let args ← list inner
  literal (Bytes.ofString ")")
  pure args

/-- A property, or a method with its arguments, after an object. -/
def access (inner? : Option (Parser (Expr Nat))) (mark : Nat) (object : Expr Nat) :
    Parser (Expr Nat) := do
  literal (Bytes.ofString ".")
  let name ← identifier
  (do let args ← arguments inner?; pure (.method mark object name args)) <|>
    pure (.member mark object name)

/-- A place in an array, after the array. -/
def index (inner? : Option (Parser (Expr Nat))) (mark : Nat) (object : Expr Nat) :
    Parser (Expr Nat) := do
  literal (Bytes.ofString "[")
  let inner ← enter inner?
  let place ← inner
  literal (Bytes.ofString "]")
  pure (.index mark object place)

/-- The call of a function. -/
def call (inner? : Option (Parser (Expr Nat))) (mark : Nat) : Parser (Expr Nat) := do
  let name ← identifier
  let args ← arguments inner?
  pure (.call mark name args)

/-- A primary with at most one postfix form, or a call. A call is tried only after the
postfix forms, and from the beginning, because its name reads as a primary first. -/
def operand (inner? : Option (Parser (Expr Nat))) : Parser (Expr Nat) := fun c =>
  (do
    let object ← primary inner?
    access inner? c.offset object <|> index inner? c.offset object <|>
      backAt c (call inner? c.offset) <|> pure object : Parser (Expr Nat)) c

/-! ### Binary expressions -/

/-- An operator, with its blanks, and its right operand. -/
def rightOperand (next : Parser (Expr Nat)) (op : Operator) (left : Expr Nat) :
    Parser (Expr Nat) := do
  let mark ← offset
  literal (Bytes.space :: op.symbol ++ [Bytes.space])
  let right ← next
  pure (.binary (mark + 1) op left right)

/-- One level of binary operators: an operand of the tighter level `next`, and at most one
of the operators `op` and `op'` with a second operand of that level. -/
def level (op op' : Operator) (next : Parser (Expr Nat)) : Parser (Expr Nat) := do
  let left ← next
  rightOperand next op left <|> rightOperand next op' left <|> pure left

/-- An expression, given what may stand between brackets. -/
def expressionWith (inner? : Option (Parser (Expr Nat))) : Parser (Expr Nat) :=
  level .and .or
    (level .equal .notEqual (level .multiply .divide (level .add .subtract (operand inner?))))

/-- **An expression** in which at most `depth` brackets are open at once. -/
def expressionAt : (depth : Nat) → Parser (Expr Nat)
  | 0, c => expressionWith none c
  | depth + 1, c => expressionWith (some (expressionAt depth)) c

/-- An expression. -/
def expression : Parser (Expr Nat) :=
  expressionAt maxNesting

/-! ### Statements -/

/-- A return. -/
def ret : Parser (Clause Nat) := do
  let mark ← offset
  literal (Bytes.ofString "return ")
  let value ← expression
  pure (.ret mark value)

/-- An assignment. -/
def assign : Parser (Clause Nat) := do
  let mark ← offset
  let name ← identifier
  literal (Bytes.ofString " = ")
  let value ← expression
  pure (.assign mark name value)

/-- A clause: a return if it can be one, else an assignment. -/
def clause : Parser (Clause Nat) :=
  ret <|> assign

/-- The indented lines of a body. A line that is no clause ends the body. -/
def body : Parser (List (Clause Nat)) :=
  many (do literal (Bytes.ofString "\n    "); clause)

/-- The definition of a function. -/
def func : Parser (Stmt Nat) := do
  let mark ← offset
  literal (Bytes.ofString "func ")
  let name ← identifier
  literal (Bytes.ofString "(")
  let params ← list identifier
  literal (Bytes.ofString ")")
  let clauses ← body
  pure (.func name ⟨mark, params, clauses⟩)

/-- A loop. -/
def loop : Parser (Stmt Nat) := do
  let mark ← offset
  literal (Bytes.ofString "while ")
  let condition ← expression
  let clauses ← body
  pure (.loop mark condition clauses)

/-- A conditional. -/
def cond : Parser (Stmt Nat) := do
  let mark ← offset
  literal (Bytes.ofString "if ")
  let condition ← expression
  let clauses ← body
  pure (.cond mark condition clauses)

/-- A statement of the top level. -/
def statement : Parser (Stmt Nat) :=
  func <|> loop <|> cond <|> (do let c ← clause; pure (.clause c))

/-- Statements with line feeds between them, up to the end of the source. -/
def script : Parser (List (Stmt Nat)) := do
  let first ← statement
  let others ← many (do literal [Bytes.newline]; statement)
  endOfInput
  pure (first :: others)

end Grammar

/-- The statements of a source, marked with offsets, or what was missing. -/
def parseMarked (source : Bytes) : Except Missed (List (Stmt Nat)) :=
  match Grammar.script (.start source) with
  | ⟨some (statements, _), _⟩ => .ok statements
  | ⟨none, missed⟩ => .error missed

/-- **Reads a script.** The whole source must be a script; otherwise the error tells the
furthest point that the parser reached. -/
def parse (source : Bytes) : Except SyntaxError Script :=
  match parseMarked source with
  | .ok statements =>
    let positions := Position.ofOffsets source
    .ok ⟨source, statements.map (Stmt.map (Position.lookUp positions))⟩
  | .error missed => .error (missed.toError source)

end Scriptlet
