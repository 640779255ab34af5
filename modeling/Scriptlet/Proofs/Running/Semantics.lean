import Scriptlet.Run.Engine

/-!
# The definition of the language

What scripts mean, said by rules and without a machine that runs them. A rule says what comes of a
phrase given what comes of its parts, and nothing comes of a phrase except by a rule. What comes of
a phrase is a result, or an **error**: its kind, its message, and the position where it is
reported. There are no steps here, no quota and no interruption; the rules depend on two things
besides the script, the number of calls that may be open at once (`limit`) and whether functions
are isolated.

Evaluation is strict, from left to right, and the rules say so by what their premises are: a part
is looked at when all parts before it have a value, and its error is then the error of the whole.
Nothing is skipped; both operands of a logical operator are always evaluated. A call goes through
five stages in this order: the function is looked up, the number of arguments is checked, the
arguments are evaluated, the open calls are counted, and the body runs in a fresh scope that
holds the parameters alone.

The judgements are these.

* `Combined`, `Indexed`, `MemberOf` and `MethodOf` say what operations do to values.
* `Evaluated` is for expressions, `EvaluatedAll` for lists of them, `Called` for a function applied
  to values, and `Executed` for bodies, which end with the variables after them and the value they
  return, if they return one. They depend on each other.
* `Decided` is for conditions, `Looped` for loops, `Performed` and `PerformedAll` for statements,
  and `Yielded` for whole scripts.

A loop that goes on for good has no derivation, and so nothing comes of a script that holds one.
-/

namespace Scriptlet

/-- An error as the language defines it. -/
structure ErrorReport where
  /-- The kind of the error. -/
  kind : FaultKind
  /-- What went wrong. -/
  message : Bytes
  /-- Where it is reported. -/
  position : Position

/-! ### Operations on values -/

open Value (number text bool array)

/-- **The table of operators**: the operands an operator takes, and what it makes of them. -/
inductive TableRow : Operator → Value → Value → Value → Prop where
  | addNumbers (x y) : TableRow .add (number x) (number y) (number (x + y))
  | addTexts (s t) : TableRow .add (text s) (text t) (text (s ++ t))
  | subtract (x y) : TableRow .subtract (number x) (number y) (number (x - y))
  | multiply (x y) : TableRow .multiply (number x) (number y) (number (x * y))
  | divide (x y) : TableRow .divide (number x) (number y) (number (x / y))
  | equalNumbers (x y) : TableRow .equal (number x) (number y) (bool (x == y))
  | equalTexts {s t b} : (b = true ↔ s = t) → TableRow .equal (text s) (text t) (bool b)
  | notEqualNumbers (x y) : TableRow .notEqual (number x) (number y) (bool (!(x == y)))
  | notEqualTexts {s t b} : (b = true ↔ s ≠ t) → TableRow .notEqual (text s) (text t) (bool b)
  | and (b c) : TableRow .and (bool b) (bool c) (bool (b && c))
  | or (b c) : TableRow .or (bool b) (bool c) (bool (b || c))

/-- What an operator at a position makes of two values: every combination that is not in the table
is an error. -/
inductive Combined (mark : Position) (op : Operator) (v w : Value) :
    Except ErrorReport Value → Prop where
  | row {u} : TableRow op v w u → Combined mark op v w (.ok u)
  | mismatch : (∀ u, ¬TableRow op v w u) →
    Combined mark op v w (.error ⟨.type, Fault.message (.operands op v.kind w.kind), mark⟩)

/-- The place that a number names: the number with its fraction cut off is `i`, and so it is neither
less than zero nor infinite nor a non-number. -/
def NamesPlace (x : Float) (i : Nat) : Prop :=
  ∃ negative m q, Binary.ofFloat x = .finite negative m q ∧
    i * Nat.pow 2 (-q).toNat ≤ m * Nat.pow 2 q.toNat ∧
    m * Nat.pow 2 q.toNat < (i + 1) * Nat.pow 2 (-q).toNat ∧ (negative = true → i = 0)

/-- What comes of an index expression, for the positions of its two parts. -/
inductive Indexed (objectMark placeMark : Position) : Value → Value →
    Except ErrorReport Value → Prop where
  | element {vs x i v} : NamesPlace x i → vs[i]? = some v →
    Indexed objectMark placeMark (array vs) (number x) (.ok v)
  | outOfRange {vs x} : (∀ i, NamesPlace x i → vs.length ≤ i) →
    Indexed objectMark placeMark (array vs) (number x)
      (.error ⟨.index, Fault.message (.indexRange x vs.length), placeMark⟩)
  | notNumber {vs w} : w.kind ≠ .number →
    Indexed objectMark placeMark (array vs) w
      (.error ⟨.type, Fault.message (.indexKind w.kind), placeMark⟩)
  | notArray {v w} : v.kind ≠ .array →
    Indexed objectMark placeMark v w
      (.error ⟨.type, Fault.message (.notIndexable v.kind), objectMark⟩)

/-- The one property: the number of elements of an array, and of bytes of a text. -/
inductive Measured : Value → Nat → Prop where
  | array (vs) : Measured (array vs) vs.length
  | text (s) : Measured (text s) (Bytes.unpack s).length

/-- What comes of a property of a value. -/
inductive MemberOf (mark : Position) (v : Value) (property : Bytes) :
    Except ErrorReport Value → Prop where
  | length {n} : property = Bytes.ofString "length" → Measured v n →
    MemberOf mark v property (.ok (number (Float.ofNat n)))
  | unknown : (property = Bytes.ofString "length" → ∀ n, ¬Measured v n) →
    MemberOf mark v property (.error ⟨.type, Fault.message (.unknownMember property v.kind), mark⟩)

/-- What comes of the call of a method of a value. The number of arguments is checked before their
kinds. -/
inductive MethodOf (mark : Position) : Value → Bytes → List Value →
    Except ErrorReport Value → Prop where
  | startsWith {s p} {b : Bool} : (b = true ↔ ∃ rest, Bytes.unpack s = Bytes.unpack p ++ rest) →
    MethodOf mark (text s) (Bytes.ofString "starts_with") [text p] (.ok (bool b))
  | argument {s w} : w.kind ≠ .text →
    MethodOf mark (text s) (Bytes.ofString "starts_with") [w] (.error ⟨.type,
      Fault.message (.methodArgument .text (Bytes.ofString "starts_with") 1 .text w.kind), mark⟩)
  | arity {s ws} : ws.length ≠ 1 →
    MethodOf mark (text s) (Bytes.ofString "starts_with") ws (.error ⟨.arity,
      Fault.message (.methodArity .text (Bytes.ofString "starts_with") 1 ws.length), mark⟩)
  | unknown {v name ws} : ¬(v.kind = .text ∧ name = Bytes.ofString "starts_with") →
    MethodOf mark v name ws (.error ⟨.type, Fault.message (.unknownMethod name v.kind), mark⟩)

/-! ### Expressions, calls and bodies -/

section Rules

variable (limit : Nat) (isolated : Bool)

mutual

/-- **What comes of an expression**, given the functions that can be called, the number of calls
that are open, and the variables. -/
inductive Evaluated : Table (Func Position) → Nat → Bindings → Expr Position →
    Except ErrorReport Value → Prop where
  | var {fs n vars mark name v} : vars.get? name = some v →
    Evaluated fs n vars (.var mark name) (.ok v)
  | varUndefined {fs n vars mark name} : vars.get? name = none →
    Evaluated fs n vars (.var mark name)
      (.error ⟨.name, Fault.message (.undefinedVariable name), mark⟩)
  | bool {fs n vars mark b} : Evaluated fs n vars (.bool mark b) (.ok (.bool b))
  | number {fs n vars mark x} : Evaluated fs n vars (.number mark x) (.ok (.number x))
  | text {fs n vars mark s} : Evaluated fs n vars (.text mark s) (.ok (.text (Bytes.pack s)))
  | array {fs n vars mark es vs} : EvaluatedAll fs n vars es (.ok vs) →
    Evaluated fs n vars (.array mark es) (.ok (.array vs))
  | arrayElement {fs n vars mark es err} : EvaluatedAll fs n vars es (.error err) →
    Evaluated fs n vars (.array mark es) (.error err)
  | binary {fs n vars mark op left right v w r} : Evaluated fs n vars left (.ok v) →
    Evaluated fs n vars right (.ok w) → Combined mark op v w r →
    Evaluated fs n vars (.binary mark op left right) r
  | binaryLeft {fs n vars mark op left right err} : Evaluated fs n vars left (.error err) →
    Evaluated fs n vars (.binary mark op left right) (.error err)
  | binaryRight {fs n vars mark op left right v err} : Evaluated fs n vars left (.ok v) →
    Evaluated fs n vars right (.error err) →
    Evaluated fs n vars (.binary mark op left right) (.error err)
  | callUndefined {fs n vars mark name args} : fs.get? name = none →
    Evaluated fs n vars (.call mark name args)
      (.error ⟨.name, Fault.message (.undefinedFunction name), mark⟩)
  | callArity {fs n vars mark name args f} : fs.get? name = some f →
    args.length ≠ f.params.length →
    Evaluated fs n vars (.call mark name args) (.error ⟨.arity,
      Fault.message (.functionArity name f.params.length args.length), mark⟩)
  | callArgument {fs n vars mark name args f err} : fs.get? name = some f →
    args.length = f.params.length → EvaluatedAll fs n vars args (.error err) →
    Evaluated fs n vars (.call mark name args) (.error err)
  | call {fs n vars mark name args f vs r} : fs.get? name = some f →
    args.length = f.params.length → EvaluatedAll fs n vars args (.ok vs) →
    Called fs n name mark f vs r →
    Evaluated fs n vars (.call mark name args) r
  | index {fs n vars mark object place v w r} : Evaluated fs n vars object (.ok v) →
    Evaluated fs n vars place (.ok w) → Indexed object.mark place.mark v w r →
    Evaluated fs n vars (.index mark object place) r
  | indexObject {fs n vars mark object place err} : Evaluated fs n vars object (.error err) →
    Evaluated fs n vars (.index mark object place) (.error err)
  | indexPlace {fs n vars mark object place v err} : Evaluated fs n vars object (.ok v) →
    Evaluated fs n vars place (.error err) →
    Evaluated fs n vars (.index mark object place) (.error err)
  | member {fs n vars mark object property v r} : Evaluated fs n vars object (.ok v) →
    MemberOf mark v property r →
    Evaluated fs n vars (.member mark object property) r
  | memberObject {fs n vars mark object property err} : Evaluated fs n vars object (.error err) →
    Evaluated fs n vars (.member mark object property) (.error err)
  | method {fs n vars mark object name args v ws r} : Evaluated fs n vars object (.ok v) →
    EvaluatedAll fs n vars args (.ok ws) → MethodOf mark v name ws r →
    Evaluated fs n vars (.method mark object name args) r
  | methodObject {fs n vars mark object name args err} : Evaluated fs n vars object (.error err) →
    Evaluated fs n vars (.method mark object name args) (.error err)
  | methodArgument {fs n vars mark object name args v err} : Evaluated fs n vars object (.ok v) →
    EvaluatedAll fs n vars args (.error err) →
    Evaluated fs n vars (.method mark object name args) (.error err)

/-- What comes of expressions from left to right. -/
inductive EvaluatedAll : Table (Func Position) → Nat → Bindings → List (Expr Position) →
    Except ErrorReport (List Value) → Prop where
  | nil {fs n vars} : EvaluatedAll fs n vars [] (.ok [])
  | cons {fs n vars e es v vs} : Evaluated fs n vars e (.ok v) →
    EvaluatedAll fs n vars es (.ok vs) → EvaluatedAll fs n vars (e :: es) (.ok (v :: vs))
  | head {fs n vars e es err} : Evaluated fs n vars e (.error err) →
    EvaluatedAll fs n vars (e :: es) (.error err)
  | tail {fs n vars e es v err} : Evaluated fs n vars e (.ok v) →
    EvaluatedAll fs n vars es (.error err) → EvaluatedAll fs n vars (e :: es) (.error err)

/-- **What comes of a function applied to values**, called at a position under a name. -/
inductive Called : Table (Func Position) → Nat → Bytes → Position → Func Position → List Value →
    Except ErrorReport Value → Prop where
  | tooDeep {fs n name site f vs} : limit ≤ n →
    Called fs n name site f vs (.error ⟨.limit, Fault.message (.tooDeep limit), site⟩)
  | returned {fs n name site f vs vars v} : n < limit →
    Executed (if isolated then .empty else fs) (n + 1) (Table.empty.insertAll (f.params.zip vs))
      f.body (.ok (vars, some v)) →
    Called fs n name site f vs (.ok v)
  | noReturn {fs n name site f vs vars} : n < limit →
    Executed (if isolated then .empty else fs) (n + 1) (Table.empty.insertAll (f.params.zip vs))
      f.body (.ok (vars, none)) →
    Called fs n name site f vs (.error ⟨.structural, Fault.message (.noReturn name), f.mark⟩)
  | failed {fs n name site f vs err} : n < limit →
    Executed (if isolated then .empty else fs) (n + 1) (Table.empty.insertAll (f.params.zip vs))
      f.body (.error err) →
    Called fs n name site f vs (.error err)

/-- **What comes of a body**: the variables after it, and the value it returns if it does. Where no
call is open a return is an error, and its expression is not evaluated. -/
inductive Executed : Table (Func Position) → Nat → Bindings → List (Clause Position) →
    Except ErrorReport (Bindings × Option Value) → Prop where
  | nil {fs n vars} : Executed fs n vars [] (.ok (vars, none))
  | assign {fs n vars mark name e cs v r} : Evaluated fs n vars e (.ok v) →
    Executed fs n (vars.insert name v) cs r →
    Executed fs n vars (.assign mark name e :: cs) r
  | assignValue {fs n vars mark name e cs err} : Evaluated fs n vars e (.error err) →
    Executed fs n vars (.assign mark name e :: cs) (.error err)
  | ret {fs n vars mark e cs v} : 0 < n → Evaluated fs n vars e (.ok v) →
    Executed fs n vars (.ret mark e :: cs) (.ok (vars, some v))
  | retValue {fs n vars mark e cs err} : 0 < n → Evaluated fs n vars e (.error err) →
    Executed fs n vars (.ret mark e :: cs) (.error err)
  | retOutside {fs vars mark e cs} :
    Executed fs 0 vars (.ret mark e :: cs)
      (.error ⟨.structural, Fault.message .returnOutside, mark⟩)

end

/-! ### Statements and scripts -/

/-- What comes of the condition of a construct on the top level. -/
inductive Decided (fs : Table (Func Position)) (vars : Bindings) (construct : Construct)
    (condition : Expr Position) : Except ErrorReport Bool → Prop where
  | bool {b} : Evaluated limit isolated fs 0 vars condition (.ok (.bool b)) →
    Decided fs vars construct condition (.ok b)
  | notBool {v} : Evaluated limit isolated fs 0 vars condition (.ok v) → v.kind ≠ .bool →
    Decided fs vars construct condition
      (.error ⟨.type, Fault.message (.condition construct v.kind), condition.mark⟩)
  | failed {err} : Evaluated limit isolated fs 0 vars condition (.error err) →
    Decided fs vars construct condition (.error err)

/-- **What comes of a loop**: the variables after it. -/
inductive Looped (fs : Table (Func Position)) (condition : Expr Position)
    (body : List (Clause Position)) : Bindings → Except ErrorReport Bindings → Prop where
  | last {vars} : Decided limit isolated fs vars .loop condition (.ok false) →
    Looped fs condition body vars (.ok vars)
  | again {vars vars' r} : Decided limit isolated fs vars .loop condition (.ok true) →
    Executed limit isolated fs 0 vars body (.ok (vars', none)) →
    Looped fs condition body vars' r → Looped fs condition body vars r
  | condition {vars err} : Decided limit isolated fs vars .loop condition (.error err) →
    Looped fs condition body vars (.error err)
  | body {vars err} : Decided limit isolated fs vars .loop condition (.ok true) →
    Executed limit isolated fs 0 vars body (.error err) →
    Looped fs condition body vars (.error err)

/-- **What comes of a statement**: the variables and functions after it. -/
inductive Performed (w : World) : Stmt Position → Except ErrorReport World → Prop where
  | clause {c vars} : Executed limit isolated w.functions 0 w.bindings [c] (.ok (vars, none)) →
    Performed w (.clause c) (.ok { w with bindings := vars })
  | clauseFailed {c err} : Executed limit isolated w.functions 0 w.bindings [c] (.error err) →
    Performed w (.clause c) (.error err)
  | func {name f} :
    Performed w (.func name f) (.ok { w with functions := w.functions.insert name f })
  | condTrue {mark condition body vars} :
    Decided limit isolated w.functions w.bindings .cond condition (.ok true) →
    Executed limit isolated w.functions 0 w.bindings body (.ok (vars, none)) →
    Performed w (.cond mark condition body) (.ok { w with bindings := vars })
  | condFalse {mark condition body} :
    Decided limit isolated w.functions w.bindings .cond condition (.ok false) →
    Performed w (.cond mark condition body) (.ok w)
  | condCondition {mark condition body err} :
    Decided limit isolated w.functions w.bindings .cond condition (.error err) →
    Performed w (.cond mark condition body) (.error err)
  | condBody {mark condition body err} :
    Decided limit isolated w.functions w.bindings .cond condition (.ok true) →
    Executed limit isolated w.functions 0 w.bindings body (.error err) →
    Performed w (.cond mark condition body) (.error err)
  | loop {mark condition body vars} :
    Looped limit isolated w.functions condition body w.bindings (.ok vars) →
    Performed w (.loop mark condition body) (.ok { w with bindings := vars })
  | loopFailed {mark condition body err} :
    Looped limit isolated w.functions condition body w.bindings (.error err) →
    Performed w (.loop mark condition body) (.error err)

/-- What comes of statements in turn. -/
inductive PerformedAll : World → List (Stmt Position) → Except ErrorReport World → Prop where
  | nil {w} : PerformedAll w [] (.ok w)
  | cons {w w' s ss r} : Performed limit isolated w s (.ok w') → PerformedAll w' ss r →
    PerformedAll w (s :: ss) r
  | failed {w s ss err} : Performed limit isolated w s (.error err) →
    PerformedAll w (s :: ss) (.error err)

/-- **What comes of a script**: its statements start with no variables and no functions, and the
variables at the end are the result. -/
inductive Yielded (script : Script) : Except ErrorReport Bindings → Prop where
  | bindings {w} : PerformedAll limit isolated .empty script.statements (.ok w) →
    Yielded script (.ok w.bindings)
  | failed {err} : PerformedAll limit isolated .empty script.statements (.error err) →
    Yielded script (.error err)

end Rules

end Scriptlet
