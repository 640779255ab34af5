import Scriptlet.Json.Basic
import Scriptlet.Value.Basic

/-!
# Values in JSON

A value is written as the JSON document of its kind. JSON has no numbers without digits, so an
infinity or a non-number is written as a string that shows it.
-/

namespace Scriptlet

namespace Value

/-- A number as JSON. -/
def numberJson (x : Float) : Json :=
  match Binary.ofFloat x with
  | .finite .. => .number (Json.numberStyle.write x)
  | _ => .ofText (showNumber x)

mutual

/-- **A value as JSON.** -/
def toJson : Value → Json
  | array elements => .array (toJsonList elements)
  | bool b => .bool b
  | number x => numberJson x
  | text s => .ofText (Bytes.unpack s)
  | invalid => .null

/-- Values as JSON. -/
def toJsonList : List Value → List Json
  | [] => []
  | v :: vs => toJson v :: toJsonList vs

end

end Value

/-- **Bindings as a JSON document** on many lines, with a line feed at the end. -/
def Bindings.json (b : Bindings) : Bytes :=
  Json.indented (.object (b.entries.map fun (name, v) => (name, v.toJson))) ++ [Bytes.newline]

/-- The forms in which bindings can be written. -/
inductive BindingsFormat where
  | text
  | json
  | yaml
  deriving DecidableEq, Repr

/-- The form with a given name. -/
def BindingsFormat.ofName? (name : Bytes) : Option BindingsFormat :=
  if name = Bytes.ofString "text" then some .text
  else if name = Bytes.ofString "json" then some .json
  else if name = Bytes.ofString "yaml" then some .yaml
  else none

end Scriptlet
