import Scriptlet.Server.Documents
import Scriptlet.Text.Blank
import Scriptlet.Text.Quoted

/-!
# The wire

Messages travel in **frames**: header lines, an empty line, and as many bytes as the header
`Content-Length` says. Other headers are passed over. The server reads frames until the input
ends or it is told to exit; a frame whose payload is no message is passed over too.

The input may end quietly between frames or among header lines, and before the first byte
of a payload. It may not end in the middle of a payload.
-/

namespace Scriptlet

/-- Why a stream cannot be read on. -/
inductive StreamError where
  /-- A frame does not tell its length. -/
  | noLength
  /-- A frame's length is not a number. -/
  | badLength (text : Bytes) (e : IntegerError)
  /-- The input ends within a payload. -/
  | cutShort
  deriving DecidableEq, Repr

/-- The wording of a stream error. -/
def StreamError.message : StreamError → Bytes
  | noLength => Bytes.ofString "missing Content-Length header"
  | badLength text e =>
    Bytes.ofString "invalid Content-Length: strconv.Atoi: parsing " ++ Bytes.quoted text ++
      Bytes.ofString (match e with
        | .malformed => ": invalid syntax"
        | .outOfRange => ": value out of range")
  | cutShort => Bytes.ofString "unexpected EOF"

namespace Stream

/-! ### Frames -/

/-- What reading a frame can give. -/
inductive Reading (α : Type) where
  /-- Something was read, and this follows. -/
  | got (a : α) (rest : Bytes)
  /-- The input is over. -/
  | ended
  /-- The input makes no sense. -/
  | failed (e : StreamError)

/-- Whether a header's name is that of the length. -/
def isLengthName (name : Bytes) : Bool :=
  (Bytes.trimmed name).map Bytes.toLower == Bytes.ofString "content-length"

/-- The length that a header line tells, if it does. -/
def lengthIn? (line : Bytes) : Option (Except StreamError Int) :=
  match Bytes.cut? Bytes.colon line with
  | none => none
  | some (name, value) =>
    if isLengthName name then
      let text := Bytes.trimmed value
      some (match Integer.read text with
        | .ok n => .ok n
        | .error e => .error (.badLength text e))
    else none

/-- A line without the carriage returns at its end. -/
def dropReturns (line : Bytes) : Bytes :=
  Bytes.trimEnd (· == Bytes.carriageReturn) line

/-- Reads header lines up to the empty line: the length that the last of them told, or
`length` when none did. There are at most `fuel` lines. -/
def headers : (fuel : Nat) → (length : Option Int) → Bytes → Reading (Option Int)
  | 0, _, _ => .ended
  | fuel + 1, length, s =>
    match Bytes.cut? Bytes.newline s with
    | none => .ended
    | some (line, rest) =>
      let line := dropReturns line
      if line.isEmpty then .got length rest
      else match lengthIn? line with
        | none => headers fuel length rest
        | some (.ok n) => headers fuel (some n) rest
        | some (.error e) => .failed e

/-- A payload of a given length. -/
def payload (n : Nat) (s : Bytes) : Reading Bytes :=
  if n ≤ s.length then .got (s.take n) (s.drop n)
  else if s.isEmpty then .ended
  else .failed .cutShort

/-- **Reads a frame**: its payload, and the input after it. -/
def frame (s : Bytes) : Reading Bytes :=
  match headers (s.length + 1) none s with
  | .ended => .ended
  | .failed e => .failed e
  | .got none _ => .failed .noLength
  | .got (some n) rest => if n < 0 then .failed .noLength else payload n.toNat rest

/-- The frame of a payload. -/
def framed (payload : Bytes) : Bytes :=
  Bytes.ofString "Content-Length: " ++ Bytes.ofNat payload.length ++
    Bytes.ofString "\r\n\r\n" ++ payload

/-! ### Serving -/

/-- What became of a stream. -/
structure Served where
  /-- The messages sent, in order. -/
  sent : List Outbound
  /-- The documents open at the end. -/
  documents : Documents
  /-- Why the stream could not be read to its end, if so. -/
  error : Option StreamError

/-- What became of a stream that began with some messages sent. -/
def Served.after (sent : List Outbound) (s : Served) : Served :=
  { s with sent := sent ++ s.sent }

/-- What became of one payload. -/
structure Handled where
  /-- The messages sent. -/
  sent : List Outbound
  /-- The documents open after it. -/
  documents : Documents
  /-- Whether the editor said to exit. -/
  exits : Bool

/-- Handles a payload; one that is no message does nothing. -/
def handle (docs : Documents) (payload : Bytes) : Handled :=
  match Inbound.read? payload with
  | none => ⟨[], docs, false⟩
  | some m =>
    let (docs, sent) := docs.handle m
    ⟨sent, docs, m.method == Bytes.ofString "exit"⟩

/-- Handles at most `fuel` frames. -/
def serveUpTo : (fuel : Nat) → Documents → Bytes → Served
  | 0, docs, _ => ⟨[], docs, none⟩
  | fuel + 1, docs, s =>
    match frame s with
    | .ended => ⟨[], docs, none⟩
    | .failed e => ⟨[], docs, some e⟩
    | .got payload rest =>
      let h := handle docs payload
      if h.exits then ⟨h.sent, h.documents, none⟩
      else (serveUpTo fuel h.documents rest).after h.sent

/-- **Serves a stream** to its end, or until the editor says to exit. Every frame takes at least
one byte. -/
def serve (docs : Documents) (input : Bytes) : Served :=
  serveUpTo (input.length + 1) docs input

/-- The bytes written for messages. -/
def output (sent : List Outbound) : Bytes :=
  sent.flatMap fun m => framed m.toJson.compact

end Stream

end Scriptlet
