import Scriptlet.Decimal.Style
import Scriptlet.Table
import Scriptlet.Text.Packed
import Scriptlet.Text.Quoted

/-!
# Values

A **value** is an array of values, a truth value, a number or a text. There is one value
more, `invalid`, which no script can produce: it stands for a value that was never given,
and only the functions that show and compare values know about it.

Numbers are compared as floating-point numbers are, so a value that contains a non-number is
not equal to itself.
-/

namespace Scriptlet

/-- A value of the language. -/
inductive Value where
  /-- A list of values. -/
  | array (elements : List Value)
  /-- A truth value. -/
  | bool (value : Bool)
  /-- A number. -/
  | number (value : Float)
  /-- A text: any bytes, packed. -/
  | text (value : ByteArray)
  /-- No value at all. -/
  | invalid
  deriving Inhabited

/-- The kinds of values. -/
inductive Kind where
  | array
  | bool
  | number
  | text
  | invalid
  deriving DecidableEq, Repr

namespace Kind

/-- The name of the kind with a given number; numbers that name none are shown. -/
def nameOfNumber (n : Int) : Bytes :=
  if n = 1 then Bytes.ofString "array"
  else if n = 2 then Bytes.ofString "bool"
  else if n = 3 then Bytes.ofString "number"
  else if n = 4 then Bytes.ofString "text"
  else Bytes.ofString "kind(" ++ Bytes.ofInt n ++ Bytes.ofString ")"

/-- The number of a kind. -/
def toNumber : Kind → Int
  | invalid => 0
  | array => 1
  | bool => 2
  | number => 3
  | text => 4

/-- The name of a kind, as messages give it. -/
def name (k : Kind) : Bytes :=
  nameOfNumber k.toNumber

end Kind

namespace Value

/-- The kind of a value. -/
def kind : Value → Kind
  | array _ => .array
  | bool _ => .bool
  | number _ => .number
  | text _ => .text
  | invalid => .invalid

/-! ### Showing values -/

/-- How numbers are shown: always in full. -/
def numberStyle : NumberStyle where
  inFull := none
  exponentDigits := 1
  nan := Bytes.ofString "NaN"
  infinity := fun negative => Bytes.ofString (if negative then "-inf" else "inf")

/-- A number as it is shown. -/
def showNumber (x : Float) : Bytes :=
  numberStyle.write x

mutual

/-- A value as it is shown, with what follows it: arrays between brackets, texts quoted. -/
def inspectThen : Value → (rest : Bytes) → Bytes
  | array elements, rest => 0x5b :: inspectListThen elements (0x5d :: rest)
  | bool true, rest => Bytes.ofString "true" ++ rest
  | bool false, rest => Bytes.ofString "false" ++ rest
  | number x, rest => showNumber x ++ rest
  | text s, rest => Bytes.quoted (Bytes.unpack s) ++ rest
  | invalid, rest => Bytes.ofString "<invalid>" ++ rest

/-- Values with commas between them, with what follows them. -/
def inspectListThen : List Value → (rest : Bytes) → Bytes
  | [], rest => rest
  | [v], rest => inspectThen v rest
  | v :: vs, rest => inspectThen v (0x2c :: Bytes.space :: inspectListThen vs rest)

end

/-- **A value as it is shown.** -/
def inspect (v : Value) : Bytes :=
  inspectThen v []

mutual

theorem inspectThen_eq (v : Value) (rest : Bytes) : inspectThen v rest = inspect v ++ rest := by
  match v with
  | array elements =>
    rw [inspect, inspectThen, inspectThen, inspectListThen_eq elements (0x5d :: rest),
      inspectListThen_eq elements [0x5d]]
    simp
  | bool true | bool false | number _ | text _ | invalid => simp [inspect, inspectThen]

theorem inspectListThen_eq (vs : List Value) (rest : Bytes) :
    inspectListThen vs rest = Bytes.join [0x2c, Bytes.space] (vs.map inspect) ++ rest := by
  match vs with
  | [] => simp [inspectListThen, Bytes.join]
  | [v] => simp [inspectListThen, Bytes.join, inspectThen_eq v]
  | v :: w :: vs =>
    rw [inspectListThen, inspectThen_eq v, inspectListThen_eq (w :: vs)]
    · simp [Bytes.join]
    · simp

end

/-- An array is shown between brackets, with commas between its elements. -/
theorem inspect_array (elements : List Value) :
    inspect (array elements) =
      0x5b :: Bytes.join [0x2c, Bytes.space] (elements.map inspect) ++ [0x5d] := by
  rw [inspect, inspectThen, inspectListThen_eq]
  rfl

/-- A value as plain text: a text is itself, other values are as shown. -/
def plain : Value → Bytes
  | text s => Bytes.unpack s
  | v => inspect v

/-! ### Comparing values -/

mutual

/-- **Equality of values**: same kind and equal content; numbers as floating-point numbers. -/
def equal : Value → Value → Bool
  | array vs, array ws => equalList vs ws
  | bool b, bool c => b == c
  | number x, number y => x == y
  | text s, text t => s == t
  | _, _ => false

/-- Equality of lists of values, element by element. -/
def equalList : List Value → List Value → Bool
  | [], [] => true
  | v :: vs, w :: ws => equal v w && equalList vs ws
  | _, _ => false

end

/-! ### Parts of values -/

/-- The length of an array or, in bytes, of a text. -/
def length? : Value → Option Nat
  | array elements => some elements.length
  | text s => some s.size
  | _ => none

/-- The element of an array at a place counted from zero. -/
def element? (v : Value) (i : Int) : Option Value :=
  match v with
  | array elements => if i < 0 then none else elements[i.toNat]?
  | _ => none

/-- The elements of an array; none for other values. -/
def elements : Value → List Value
  | array es => es
  | _ => []

/-- The truth value, or false for other values. -/
def toBool : Value → Bool
  | bool b => b
  | _ => false

/-- The number, or zero for other values. -/
def toFloat : Value → Float
  | number x => x
  | _ => Float.ofNat 0

/-- The text, or the empty text for other values. -/
def toText : Value → Bytes
  | text s => Bytes.unpack s
  | _ => []

end Value

/-- The variables that a run leaves behind. -/
abbrev Bindings := Table Value

/-- Bindings as text: one line for each variable. -/
def Bindings.lines (b : Bindings) : Bytes :=
  b.entries.flatMap fun (name, v) =>
    name ++ Bytes.ofString " = " ++ v.inspect ++ [Bytes.newline]

end Scriptlet
