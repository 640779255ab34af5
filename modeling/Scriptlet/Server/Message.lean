import Scriptlet.Decimal.Integer
import Scriptlet.Json.Reader

/-!
# Messages of an editor

An editor sends requests and notifications as JSON objects and gets replies and notifications
back. **Reading** a message takes from an object the members that are wanted and passes over the
others. Names of members are compared without regard to case. A member may occur more than
once: the later one is read on top of what the earlier one gave. The absent value leaves what
there was. A member of the wrong form makes the whole message unreadable.

So a reader turns an earlier reading and a document into a new reading, or fails
(`Reader`), and readers for records and lists are put together from readers for their
parts.
-/

namespace Scriptlet

/-! ### Readers -/

/-- A list as it was read last. When an earlier reading was longer, its further items are kept
aside: they are not in the list, but a later and longer reading is on top of them too. -/
structure Readings (σ : Type) where
  /-- The items of the list. -/
  items : List σ
  /-- The items of earlier readings at the places after the list. -/
  aside : List σ
  deriving Inhabited

/-- Nothing read yet. -/
def Readings.empty {σ : Type} : Readings σ := ⟨[], []⟩

/-- Reads a document on top of an earlier reading. -/
abbrev Reader (σ : Type) := σ → Json → Option σ

namespace Reader

/-- The form of a character in which case does not matter. Two characters outside ASCII have a
plain letter as their other case. -/
def foldChar (c : Char) : Char :=
  if c = '\u017f' then 's' else if c = '\u212a' then 'k' else c.toLower

/-- Whether a member's name, as written, is a given name up to case. -/
def isNamed (name : String) (written : Bytes) : Bool :=
  (Bytes.glyphs (Json.decode written)).map (fun r => foldChar r.toChar) ==
    name.toList.map foldChar

/-- Reads a string. -/
def text : Reader Bytes
  | _, .string content => some (Json.decode content)
  | s, .null => some s
  | _, _ => none

/-- Reads a whole number. -/
def int : Reader Int
  | _, .number literal => (Integer.read literal).toOption
  | n, .null => some n
  | _, _ => none

/-- Keeps a document as it is. The absent value takes back an earlier one. -/
def optional : Reader (Option Json)
  | _, .null => some none
  | _, j => some (some j)

/-- Keeps a document as it is, the absent value too. -/
def whole : Reader (Option Json)
  | _, j => some (some j)

/-- Reads the members of an object, each by the first reader with its name. -/
def members {σ : Type} (fields : List (String × Reader σ)) :
    List (Bytes × Json) → σ → Option σ
  | [], s => some s
  | (name, value) :: ms, s =>
    match fields.find? fun f => isNamed f.1 name with
    | none => members fields ms s
    | some (_, read) => (read s value).bind (members fields ms)

/-- Reads an object. -/
def record {σ : Type} (fields : List (String × Reader σ)) : Reader σ
  | s, .object ms => members fields ms s
  | s, .null => some s
  | _, _ => none

/-- Reads items one after another, each on top of the earlier reading at its place, or of
`new` where there was none. -/
def items {σ : Type} (new : σ) (item : Reader σ) : List σ → List Json → Option (Readings σ)
  | earlier, [] => some ⟨[], earlier⟩
  | earlier, j :: js => do
    let s ← item (earlier.headD new) j
    let ss ← items new item earlier.tail js
    some { ss with items := s :: ss.items }

/-- Reads a list. The absent value is the empty list, and the empty list leaves nothing of
earlier readings. -/
def list {σ : Type} (new : σ) (item : Reader σ) : Reader (Readings σ)
  | _, .array [] => some .empty
  | earlier, .array js => items new item (earlier.items ++ earlier.aside) js
  | _, .null => some .empty
  | _, _ => none

end Reader

/-! ### Messages from the editor -/

/-- A message from the editor. -/
structure Inbound where
  /-- The identifier of a request; notifications have none. -/
  id : Option Json
  /-- What is asked for or announced. -/
  method : Bytes
  /-- The details. -/
  params : Option Json
  deriving Inhabited

namespace Inbound

/-- Nothing in particular. -/
def blank : Inbound := ⟨none, [], none⟩

/-- The members of a message. The version of the protocol is read and not used. -/
def fields : List (String × Reader Inbound) :=
  [("jsonrpc", fun m j => (Reader.text [] j).map fun _ => m),
   ("id", fun m j => (Reader.optional m.id j).map fun id => { m with id }),
   ("method", fun m j => (Reader.text m.method j).map fun method => { m with method }),
   ("params", fun m j => (Reader.whole m.params j).map fun params => { m with params })]

/-- **Reads a message** from the text of a JSON document. -/
def read? (payload : Bytes) : Option Inbound :=
  (Json.parse? payload).bind (Reader.record fields blank)

end Inbound

/-! ### Details of messages -/

/-- A document as the editor names it and, when it opens it, its text. -/
structure DocumentItem where
  /-- The name of the document. -/
  uri : Bytes
  /-- The text of the document. -/
  text : Bytes
  deriving Inhabited

/-- The details of all messages about a document that the server reads. -/
structure Details where
  /-- The document. -/
  document : DocumentItem
  /-- The texts that replace the document's text, one after another. -/
  changes : Readings Bytes
  /-- The line, counted from zero. -/
  line : Int
  /-- The UTF-16 unit in the line. -/
  character : Int
  deriving Inhabited

namespace Details

/-- No details. -/
def blank : Details := ⟨⟨[], []⟩, .empty, 0, 0⟩

/-- The member that names a document. -/
def uriField : String × Reader DocumentItem :=
  ("uri", fun d j => (Reader.text d.uri j).map fun uri => { d with uri })

/-- The member that gives a document's text. -/
def textField : String × Reader DocumentItem :=
  ("text", fun d j => (Reader.text d.text j).map fun text => { d with text })

/-- The member about a document, read by the given members. -/
def documentField (fields : List (String × Reader DocumentItem)) : String × Reader Details :=
  ("textDocument", fun d j =>
    (Reader.record fields d.document j).map fun document => { d with document })

/-- The member that lists changes. -/
def changesField : String × Reader Details :=
  ("contentChanges", fun d j =>
    (Reader.list [] (Reader.record [("text", Reader.text)]) d.changes j).map
      fun changes => { d with changes })

/-- The member that gives a place. -/
def positionField : String × Reader Details :=
  ("position",
    Reader.record
      [("line", fun d j => (Reader.int d.line j).map fun line => { d with line }),
       ("character", fun d j =>
         (Reader.int d.character j).map fun character => { d with character })])

/-- The details of a message, read by the given members; there must be some. -/
def read? (fields : List (String × Reader Details)) (params : Option Json) : Option Details :=
  params.bind (Reader.record fields blank)

/-- The details of a message that a document was opened or closed. -/
def opened? : Option Json → Option Details :=
  read? [documentField [uriField, textField]]

/-- The details of a message that a document was changed. -/
def changed? : Option Json → Option Details :=
  read? [documentField [uriField], changesField]

/-- The details of a question about a place in a document. -/
def place? : Option Json → Option Details :=
  read? [documentField [uriField], positionField]

end Details

/-! ### Messages to the editor -/

/-- What a message to the editor says. -/
inductive Content where
  /-- An announcement. -/
  | notification (method : String) (params : Json)
  /-- The answer to a request; it may be empty. -/
  | result (value : Option Json)
  /-- Why a request is not answered. -/
  | error (code : Int) (message : String)

/-- A message to the editor; a reply has the identifier of its request. -/
structure Outbound where
  /-- The identifier of the request that is answered. -/
  id : Option Json
  /-- What the message says. -/
  content : Content

namespace Outbound

/-- The members of what a message says. -/
def contentMembers : Content → List (String × Json)
  | .notification method params => [("method", .ofLiteral method), ("params", params)]
  | .result value => value.toList.map (("result", ·))
  | .error code message =>
    [("error", .record [("code", .ofInt code), ("message", .ofLiteral message)])]

/-- **A message as JSON.** Absent members are left out. -/
def toJson (m : Outbound) : Json :=
  .record
    (("jsonrpc", .ofLiteral "2.0") :: m.id.toList.map (fun id => ("id", id.guarded)) ++
      contentMembers m.content)

end Outbound

end Scriptlet
