import Scriptlet.Value.Basic
import Scriptlet.Yaml.Scalar

/-!
# Bindings in YAML

Bindings are written as a **mapping**, one key on a line, its value after it. A list goes below
its key, two blanks deeper, with a hyphen before each item; a list within a list begins on the
line of its hyphen. Empty lists and the empty mapping are written with brackets.
-/

namespace Scriptlet

namespace Yaml

/-- How numbers are written: in full from a ten-thousandth on up to six digits before the point,
else with an exponent of at least two digits. -/
def numberStyle : NumberStyle where
  inFull := some (-4, 5)
  exponentDigits := 2
  nan := Bytes.ofString ".nan"
  infinity := fun negative => Bytes.ofString (if negative then "-.inf" else ".inf")

/-- The line feed after something written, unless it has just broken the line itself. -/
def endLine (written : Bytes) : Bytes :=
  match (Bytes.glyphs written).getLast? with
  | some (.char c) => if isBreak c then [] else [Bytes.newline]
  | _ => [Bytes.newline]

/-- A value that is not a list with items, with the indentation of further lines. -/
def leaf (indent : Nat) : Value → Bytes
  | .array _ => Bytes.ofString "[]"
  | .bool true => Bytes.ofString "true"
  | .bool false => Bytes.ofString "false"
  | .number x => numberStyle.write x
  | .text s => text indent (Bytes.unpack s)
  | .invalid => Bytes.ofString "null"

mutual

/-- A value that stands at an indentation: a list with items has its hyphens there. -/
def node (indent : Nat) : Value → Bytes
  | .array (v :: vs) => items indent (v :: vs)
  | v => leaf indent v

/-- The items of a list, with their hyphens at an indentation. -/
def items (indent : Nat) : List Value → Bytes
  | [] => []
  | [v] => Bytes.ofString "- " ++ node (indent + indentWidth) v
  | v :: vs =>
    let first := node (indent + indentWidth) v
    Bytes.ofString "- " ++ first ++ endLine first ++ Bytes.spaces indent ++ items indent vs

end

/-- The longest key that may stand before its colon on one line. -/
def longestKey : Nat := 128

/-- A value after the colon of its key. A list goes below the key. -/
def afterColon (v : Value) : Bytes :=
  match v with
  | .array (_ :: _) => Bytes.newline :: Bytes.spaces indentWidth ++ node indentWidth v
  | _ => Bytes.space :: node indentWidth v

/-- One binding. A key that is too long gets a line of its own, after a question mark. -/
def binding (name : Bytes) (v : Value) : Bytes :=
  let key := text indentWidth name
  let written :=
    if name.length ≤ longestKey then key ++ Bytes.colon :: afterColon v
    else
      Bytes.ofString "? " ++ key ++ Bytes.ofString "\n: " ++ node indentWidth v
  written ++ endLine written

end Yaml

/-- **Bindings as a YAML document.** -/
def Bindings.yaml (b : Bindings) : Bytes :=
  match b.entries with
  | [] => [0x7b, 0x7d, Bytes.newline]
  | entries => entries.flatMap fun (name, v) => Yaml.binding name v

end Scriptlet
