import Scriptlet.Run.Fault

/-!
# Operations on values

What operators, indices, properties and methods do to values that are already computed. Each
operation gives a value or the fault it ends in; where the fault is reported is the
caller's business.
-/

namespace Scriptlet

namespace Value

/-- What an operator makes of two values: arithmetic and comparison on numbers, concatenation
and comparison on texts, logic on truth values, and nothing else. -/
def combine? : Operator → Value → Value → Option Value
  | .add, number x, number y => some (number (x + y))
  | .subtract, number x, number y => some (number (x - y))
  | .multiply, number x, number y => some (number (x * y))
  | .divide, number x, number y => some (number (x / y))
  | .equal, number x, number y => some (bool (x == y))
  | .notEqual, number x, number y => some (bool (x != y))
  | .add, text s, text t => some (text (s ++ t))
  | .equal, text s, text t => some (bool (s == t))
  | .notEqual, text s, text t => some (bool (s != t))
  | .and, bool b, bool c => some (bool (b && c))
  | .or, bool b, bool c => some (bool (b || c))
  | _, _, _ => none

/-- An operator applied to two values. -/
def combine (op : Operator) (v w : Value) : Except Fault Value :=
  match combine? op v w with
  | some r => .ok r
  | none => .error (.operands op v.kind w.kind)

/-- The property `length`, which arrays and texts have. -/
def lengthName : Bytes :=
  Bytes.ofString "length"

/-- A property of a value. -/
def member (v : Value) (property : Bytes) : Except Fault Value :=
  match if property = lengthName then v.length? else none with
  | some n => .ok (number (Float.ofNat n))
  | none => .error (.unknownMember property v.kind)

/-- The method `starts_with`, which texts have. -/
def startsWithName : Bytes :=
  Bytes.ofString "starts_with"

/-- A method of a value: whether a text begins with another is the only one. The number of
arguments is checked before their kinds. -/
def method (v : Value) (name : Bytes) (args : List Value) : Except Fault Value :=
  match v with
  | text s =>
    if name = startsWithName then
      match args with
      | [text p] => .ok (bool (Bytes.packedBeginsWith s p))
      | [w] => .error (.methodArgument .text name 1 .text w.kind)
      | _ => .error (.methodArity .text name 1 args.length)
    else .error (.unknownMethod name .text)
  | _ => .error (.unknownMethod name v.kind)

/-- A fault of an index expression, and whether the object is to blame or the index. -/
inductive IndexFault where
  /-- The object has no elements. -/
  | object (f : Fault)
  /-- The index is no place in the array. -/
  | place (f : Fault)

/-- **An element of an array**: the one whose place is the index with its fraction cut
off. -/
def at? (object index : Value) : Except IndexFault Value :=
  match object with
  | array elements =>
    match index with
    | number x =>
      match (placeOf? x).bind fun i => elements[i]? with
      | some v => .ok v
      | none => .error (.place (.indexRange x elements.length))
    | _ => .error (.place (.indexKind index.kind))
  | _ => .error (.object (.notIndexable object.kind))

end Value

end Scriptlet
