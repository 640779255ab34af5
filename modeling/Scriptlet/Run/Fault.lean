import Scriptlet.Script.Expectation
import Scriptlet.Script.Tree
import Scriptlet.Value.Basic

/-!
# Faults

A run that goes wrong stops with a **fault**: a cause, the position of the expression or
statement that caused it, and the calls that were open, innermost first. Causes are data;
their wording is in one place, `Fault.message`, and each belongs to one of six kinds that a
caller can tell apart.
-/

namespace Scriptlet

/-- The kinds of faults. -/
inductive FaultKind where
  | type
  | arity
  | name
  | index
  | structural
  | limit
  deriving DecidableEq, Repr

namespace FaultKind

/-- All kinds of faults. -/
def all : List FaultKind :=
  [type, arity, name, index, structural, limit]

/-- The label a message of this kind begins with. -/
def label : FaultKind → Bytes
  | type => Bytes.ofString "TypeError"
  | arity => Bytes.ofString "ArityError"
  | name => Bytes.ofString "NameError"
  | index => Bytes.ofString "IndexError"
  | structural => Bytes.ofString "StructureError"
  | limit => Bytes.ofString "LimitError"

/-- The words for this kind of fault. -/
def words : FaultKind → String
  | type => "type error"
  | arity => "arity error"
  | name => "name error"
  | index => "index error"
  | structural => "structure error"
  | limit => "limit error"

/-- The kind with a given label. -/
def ofLabel? (l : Bytes) : Option FaultKind :=
  all.find? fun k => k.label == l

end FaultKind

/-- The construct a condition belongs to. -/
inductive Construct where
  | cond
  | loop
  deriving DecidableEq, Repr

/-- The keyword of a construct. -/
def Construct.keyword : Construct → Bytes
  | cond => Bytes.ofString "if"
  | loop => Bytes.ofString "while"

/-- The causes of faults. -/
inductive Fault where
  /-- A variable has no value. -/
  | undefinedVariable (name : Bytes)
  /-- A called function is not defined. -/
  | undefinedFunction (name : Bytes)
  /-- A function got the wrong number of arguments. -/
  | functionArity (name : Bytes) (expected got : Nat)
  /-- A method got the wrong number of arguments. -/
  | methodArity (receiver : Kind) (name : Bytes) (expected got : Nat)
  /-- An argument of a method, counted from one, is of the wrong kind. -/
  | methodArgument (receiver : Kind) (name : Bytes) (place : Nat) (expected got : Kind)
  /-- A value has no such property. -/
  | unknownMember (property : Bytes) (object : Kind)
  /-- A value has no such method. -/
  | unknownMethod (name : Bytes) (receiver : Kind)
  /-- An operator does not take these operands. -/
  | operands (op : Operator) (left right : Kind)
  /-- A condition is not a truth value. -/
  | condition (construct : Construct) (got : Kind)
  /-- A value has no elements. -/
  | notIndexable (object : Kind)
  /-- An index is not a number. -/
  | indexKind (got : Kind)
  /-- An index names no element. -/
  | indexRange (index : Float) (length : Nat)
  /-- A function ended without a return. -/
  | noReturn (name : Bytes)
  /-- A return stands outside of functions. -/
  | returnOutside
  /-- Too many calls are open. -/
  | tooDeep (limit : Nat)
  /-- Too many steps were taken. -/
  | tooManySteps (quota : Nat)
  deriving DecidableEq

namespace Fault

/-- The kind of a fault. -/
def kind : Fault → FaultKind
  | undefinedVariable _ | undefinedFunction _ => .name
  | functionArity .. | methodArity .. => .arity
  | methodArgument .. | unknownMember .. | unknownMethod .. | operands .. | condition ..
  | notIndexable .. | indexKind .. => .type
  | indexRange .. => .index
  | noReturn _ | returnOutside => .structural
  | tooDeep _ | tooManySteps _ => .limit

/-- How many arguments were expected and given. -/
def arityText (expected got : Nat) : Bytes :=
  Bytes.ofString " expects " ++ Bytes.ofNat expected ++ Bytes.ofString " argument(s), got " ++
    Bytes.ofNat got

/-- **The wording of a fault.** -/
def message : Fault → Bytes
  | undefinedVariable name => Bytes.ofString "undefined variable " ++ name
  | undefinedFunction name => Bytes.ofString "undefined function " ++ name
  | functionArity name expected got =>
    Bytes.ofString "function " ++ name ++ arityText expected got
  | methodArity receiver name expected got =>
    receiver.name ++ Bytes.ofString "." ++ name ++ arityText expected got
  | methodArgument receiver name place expected got =>
    receiver.name ++ Bytes.ofString "." ++ name ++ Bytes.ofString " argument " ++
      Bytes.ofNat place ++ Bytes.ofString " must be " ++ expected.name ++
      Bytes.ofString ", got " ++ got.name
  | unknownMember property object =>
    Bytes.ofString "unknown member " ++ property ++ Bytes.ofString " for " ++ object.name
  | unknownMethod name receiver =>
    Bytes.ofString "unknown method " ++ name ++ Bytes.ofString " for " ++ receiver.name
  | operands op left right =>
    Bytes.ofString "cannot evaluate " ++ left.name ++ Bytes.ofString " " ++ op.symbol ++
      Bytes.ofString " " ++ right.name
  | condition construct got =>
    construct.keyword ++ Bytes.ofString " condition must be bool, got " ++ got.name
  | notIndexable object => Bytes.ofString "cannot index " ++ object.name
  | indexKind got => Bytes.ofString "array index must be number, got " ++ got.name
  | indexRange index length =>
    Bytes.ofString "index " ++ Value.showNumber index ++
      Bytes.ofString " out of range for array of length " ++ Bytes.ofNat length
  | noReturn name =>
    Bytes.ofString "function " ++ name ++ Bytes.ofString " finished without returning a value"
  | returnOutside => Bytes.ofString "return outside of a function"
  | tooDeep limit =>
    Bytes.ofString "recursion limit of " ++ Bytes.ofNat limit ++ Bytes.ofString " exceeded"
  | tooManySteps quota =>
    Bytes.ofString "step quota exceeded (" ++ Bytes.ofNat quota ++ Bytes.ofString ")"

end Fault

/-- A line of a stack trace: a function, and a position in it or of a call to it. -/
structure Frame where
  /-- The name of the function. -/
  function : Bytes
  /-- A position in the function or of a call to it. -/
  position : Position
  deriving DecidableEq, Repr

/-- A fault where it happened. -/
structure Failure where
  /-- The cause. -/
  fault : Fault
  /-- The position of what caused it. -/
  position : Position
  /-- The calls that were open, innermost first: the functions and where they were
  called. -/
  calls : List Frame
  deriving DecidableEq

/-- The name of the code that stands outside of functions. -/
def scriptName : Bytes :=
  Bytes.ofString "<script>"

/-- **The stack trace of a failure**: the failing position in the innermost function, then each
call outwards. -/
def Failure.trace (f : Failure) : List Frame :=
  match f.calls with
  | [] => [⟨scriptName, f.position⟩]
  | call :: calls => ⟨call.function, f.position⟩ :: call :: calls

end Scriptlet
