import Scriptlet.Server.Diagnostics
import Scriptlet.Server.Message
import Scriptlet.Server.Word

/-!
# The language server

The server keeps the texts of the documents that the editor has open. **Handling** a message
may change them, and gives the messages to send back: diagnostics after a document was
opened or changed, and replies to requests. A message that cannot be understood changes
nothing.
-/

namespace Scriptlet

/-- The documents that are open: their texts by their names. -/
abbrev Documents := Table Bytes

namespace Documents

/-- The diagnostics of a document, announced. -/
def announce (uri text : Bytes) : Outbound where
  id := none
  content := .notification "textDocument/publishDiagnostics"
    (.record
      [("diagnostics", .array ((diagnostics text).map Diagnostic.toJson)),
       ("uri", .ofText uri)])

/-- Gives a document a new text, and announces its diagnostics. -/
def put (docs : Documents) (uri text : Bytes) : Documents × List Outbound :=
  (docs.insert uri text, [announce uri text])

/-- What the server can do, as it introduces itself. -/
def introduction : Json :=
  .record
    [("capabilities", .record
      [("completionProvider", .record
        [("resolveProvider", .bool false), ("triggerCharacters", .array [.ofLiteral "."])]),
       ("hoverProvider", .bool true),
       ("textDocumentSync", .ofNat 1)]),
     ("serverInfo", .record [("name", .ofLiteral serverName)])]

/-- All completions, as an answer. -/
def completionAnswer : Json :=
  .record
    [("isIncomplete", .bool false), ("items", .array (completions.map Completion.toJson))]

/-- The answer to a question about a place in a document: what the word there means, if there
is one. A document that is not open is empty. -/
def hover (docs : Documents) (d : Details) : Option Json :=
  let text := (docs.get? d.document.uri).getD []
  let word := wordAt text d.line d.character
  if word.isEmpty then none
  else some (.record
    [("contents", .record
      [("kind", .ofLiteral "markdown"), ("value", .ofText (describeWord text word))])])

/-- The reply to a request; a notification gets none. -/
def reply (m : Inbound) (content : Content) : List Outbound :=
  match m.id with
  | none => []
  | some id => [⟨some id, content⟩]

/-- The messages that the server knows. -/
inductive Method where
  | introduce
  | initialized
  | exit
  | shutdown
  | opened
  | changed
  | closed
  | completion
  | hover
  | unknown
  deriving DecidableEq, Repr

/-- The message with a given name. -/
def Method.ofName (name : Bytes) : Method :=
  if name = Bytes.ofString "initialize" then .introduce
  else if name = Bytes.ofString "initialized" then .initialized
  else if name = Bytes.ofString "exit" then .exit
  else if name = Bytes.ofString "shutdown" then .shutdown
  else if name = Bytes.ofString "textDocument/didOpen" then .opened
  else if name = Bytes.ofString "textDocument/didChange" then .changed
  else if name = Bytes.ofString "textDocument/didClose" then .closed
  else if name = Bytes.ofString "textDocument/completion" then .completion
  else if name = Bytes.ofString "textDocument/hover" then .hover
  else .unknown

/-- **Handles a message**: the documents after it, and the messages to send. -/
def handle (docs : Documents) (m : Inbound) : Documents × List Outbound :=
  match Method.ofName m.method with
  | .introduce => (docs, [⟨m.id, .result (some introduction)⟩])
  | .initialized | .exit => (docs, [])
  | .shutdown => (docs, reply m (.result none))
  | .opened =>
    match Details.opened? m.params with
    | none => (docs, [])
    | some d => docs.put d.document.uri d.document.text
  | .changed =>
    match Details.changed? m.params with
    | none => (docs, [])
    | some d =>
      match d.changes.items.getLast? with
      | none => (docs, [])
      | some text => docs.put d.document.uri text
  | .closed =>
    match Details.opened? m.params with
    | none => (docs, [])
    | some d => (docs.erase d.document.uri, [])
  | .completion => (docs, reply m (.result (some completionAnswer)))
  | .hover =>
    match Details.place? m.params with
    | none => (docs, reply m (.error (-32602) "invalid hover params"))
    | some d => (docs, reply m (.result (docs.hover d)))
  | .unknown => (docs, reply m (.error (-32601) "method not found"))

end Documents

end Scriptlet
