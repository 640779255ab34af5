import Scriptlet.Value.Json
import Scriptlet.Yaml.Document

/-!
# Writing bindings

The bindings of a run in the form that was asked for.
-/

namespace Scriptlet

/-- **Bindings in a given form.** -/
def Bindings.write (b : Bindings) : BindingsFormat → Bytes
  | .text => b.lines
  | .json => b.json
  | .yaml => b.yaml

end Scriptlet
