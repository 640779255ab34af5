import Scriptlet.Run.Fault

/-!
# Likely mistakes

The **analysis** of a script finds, without running it, calls of functions that do not exist or
take another number of arguments, returns outside of functions, statements that can never
run, and functions that do not end in a return.

Two tables of functions are in play. Code on the top level runs in order, so its calls are
looked up among the functions defined so far. A function's body runs only when the script has
come to a call of it, so its calls are looked up among all functions of the script, the
last definition of a name counting.

Findings are listed by position; those at the same position in the order in which they were
found.
-/

namespace Scriptlet

/-- What the analysis can find. -/
inductive Finding where
  /-- A function is called that is not defined. -/
  | undefinedFunction (name : Bytes)
  /-- A function is called with the wrong number of arguments. -/
  | arity (name : Bytes) (expected got : Nat)
  /-- A return stands outside of functions. -/
  | returnOutside
  /-- A statement stands after a return. -/
  | unreachable
  /-- A function does nothing. -/
  | emptyBody
  /-- A function ends without a return. -/
  | noReturn
  deriving DecidableEq, Repr

/-- The wording of a finding. -/
def Finding.message : Finding → Bytes
  | undefinedFunction name => Bytes.ofString "call to undefined function " ++ name
  | arity name expected got => (Fault.functionArity name expected got).message
  | returnOutside => Fault.returnOutside.message
  | unreachable => Bytes.ofString "unreachable statement"
  | emptyBody => Bytes.ofString "function has an empty body"
  | noReturn => Bytes.ofString "function ends without a return"

/-- A finding, where it was made: in a function or in the script itself, and at a position. -/
structure Warning where
  /-- The function, or the name of the script. -/
  function : Bytes
  /-- The position. -/
  position : Position
  /-- What was found. -/
  finding : Finding
  deriving DecidableEq, Repr

namespace Lint

/-- The functions that a call can mean. -/
abbrev Known := Table (Func Position)

/-! ### Expressions -/

/-- What is wrong with the call of a function, if anything. -/
def callFinding? (known : Known) (name : Bytes) (args : Nat) : Option Finding :=
  match known.get? name with
  | none => some (.undefinedFunction name)
  | some f => if f.params.length = args then none else some (.arity name f.params.length args)

mutual

/-- The warnings for the calls in an expression, outer calls first. -/
def expression (owner : Bytes) (known : Known) : Expr Position → List Warning
  | .call mark name args =>
    (callFinding? known name args.length).toList.map (⟨owner, mark, ·⟩) ++
      expressions owner known args
  | .binary _ _ left right => expression owner known left ++ expression owner known right
  | .array _ elements => expressions owner known elements
  | .index _ object place => expression owner known object ++ expression owner known place
  | .member _ object _ => expression owner known object
  | .method _ object _ args => expression owner known object ++ expressions owner known args
  | .var .. | .bool .. | .number .. | .text .. => []

/-- The warnings for the calls in expressions. -/
def expressions (owner : Bytes) (known : Known) : List (Expr Position) → List Warning
  | [] => []
  | e :: es => expression owner known e ++ expressions owner known es

end

/-! ### Functions -/

/-- The warnings for the clauses of a function's body, given the clause before them: up to the
first return the calls, after it that nothing more runs, and at the end that there was no
return. -/
def body (owner : Bytes) (known : Known) :
    (before : Clause Position) → List (Clause Position) → List Warning
  | before, [] => [⟨owner, before.mark, .noReturn⟩]
  | _, .ret _ value :: clauses =>
    expression owner known value ++ clauses.map fun c => ⟨owner, c.mark, .unreachable⟩
  | _, .assign mark name value :: clauses =>
    expression owner known value ++ body owner known (.assign mark name value) clauses

/-- The warnings for a function. -/
def function (name : Bytes) (known : Known) (f : Func Position) : List Warning :=
  match f.body with
  | [] => [⟨name, f.mark, .emptyBody⟩]
  | first :: clauses => body name known first (first :: clauses)

/-! ### The top level -/

/-- The warnings for a clause of the top level. -/
def clause (known : Known) : Clause Position → List Warning
  | .assign _ _ value => expression scriptName known value
  | .ret mark value => ⟨scriptName, mark, .returnOutside⟩ :: expression scriptName known value

/-- The warnings for statements of the top level, given all functions of the script and those
defined so far. -/
def statements (all : Known) : (defined : Known) → List (Stmt Position) → List Warning
  | _, [] => []
  | defined, .func name f :: stmts =>
    function name all f ++ statements all (defined.insert name f) stmts
  | defined, .clause c :: stmts => clause defined c ++ statements all defined stmts
  | defined, .cond _ condition clauses :: stmts | defined, .loop _ condition clauses :: stmts =>
    expression scriptName defined condition ++ clauses.flatMap (clause defined) ++
      statements all defined stmts

/-- All functions of a script; of two with one name, the later. -/
def functions : List (Stmt Position) → Known :=
  List.foldl (fun known stmt =>
    match stmt with
    | .func name f => known.insert name f
    | _ => known) .empty

end Lint

/-- **The warnings for a script**, by position. -/
def Script.warnings (s : Script) : List Warning :=
  (Lint.statements (Lint.functions s.statements) .empty s.statements).mergeSort
    fun w w' => !w'.position.before w.position

end Scriptlet
