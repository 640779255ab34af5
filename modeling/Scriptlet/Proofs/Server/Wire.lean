import Mathlib.Data.List.DropRight
import Scriptlet.Proofs.Parsing.Spelling
import Scriptlet.Proofs.Server.Documents
import Scriptlet.Proofs.Text.Plain
import Scriptlet.Server.Stream

/-!
# Frames on the wire

A client may write the frame of a payload in many ways: the length is one header line among
others, its name is in any letter case, and a line may end with carriage returns before its line
feed. `Scriptlet.Stream.Frame` has all these frames, each with its text. The server reads the
payload back from every one of them and stands behind its last byte then, whatever the payload
holds and whatever follows (`Scriptlet.Stream.frame_text`): a payload is counted, not looked at.

So serving a stream of frames is handling the messages in their payloads one after another
(`Scriptlet.Stream.serve_frames`), and what the server writes can be read back by the same reading.

A length has to be a number of 64 bits, as lengths in memory are. A longer payload has no frame.
-/

namespace Scriptlet

namespace Stream

/-! ### The text of a frame -/

/-- A header line that is not about the length: it has no line feed in it and something other
than carriage returns, and what stands before its first colon, if it has one, is another name. -/
structure OtherHeader where
  /-- The line, without the line feed that ends it. -/
  line : Bytes
  /-- It is one line. -/
  one_line : Bytes.newline ∉ line
  /-- It is not an empty line. -/
  not_empty : ∃ b ∈ line, b ≠ Bytes.carriageReturn
  /-- It does not tell the length. -/
  other : ∀ name value, line = name ++ Bytes.colon :: value → Bytes.colon ∉ name →
    (Bytes.trimmed name).map Bytes.toLower ≠ Bytes.ofString "content-length"

/-- **A frame of a payload**, with all that a client may choose. -/
structure Frame where
  /-- The payload. -/
  payload : Bytes
  /-- Its length is a number of 64 bits. -/
  fits : payload.length < Nat.pow 2 63
  /-- The name of the length, as written. -/
  name : Bytes
  /-- It is the right name, in any letter case. -/
  is_name : name.map Bytes.toLower = Bytes.ofString "content-length"
  /-- The header lines before the length. -/
  before : List OtherHeader
  /-- The header lines after the length. -/
  after : List OtherHeader
  /-- How many carriage returns end the line of the length. -/
  returns : Nat
  /-- How many carriage returns stand in the empty line. -/
  lastReturns : Nat

/-- A line as it is sent, ended by some carriage returns and a line feed. -/
def ended (line : Bytes) (returns : Nat) : Bytes :=
  line ++ List.replicate returns Bytes.carriageReturn ++ [Bytes.newline]

/-- Header lines as they are sent. Carriage returns at the end of a line are part of it. -/
def headerText (hs : List OtherHeader) : Bytes :=
  hs.flatMap fun h => ended h.line 0

theorem headerText_cons (h : OtherHeader) (hs : List OtherHeader) :
    headerText (h :: hs) = ended h.line 0 ++ headerText hs :=
  List.flatMap_cons

/-- **The text of a frame.** -/
def Frame.text (f : Frame) : Bytes :=
  headerText f.before ++
    ended (f.name ++ Bytes.ofString ": " ++ Bytes.ofNat f.payload.length) f.returns ++
    headerText f.after ++ ended [] f.lastReturns ++ f.payload

/-! ### Reading header lines -/

theorem dropReturns_append_returns (line : Bytes) (returns : Nat) :
    dropReturns (line ++ List.replicate returns Bytes.carriageReturn) = dropReturns line := by
  rw [dropReturns, Bytes.trimEnd, List.reverse_append, List.reverse_replicate,
    List.dropWhile_append_of_pos fun b hb => by rw [List.eq_of_mem_replicate hb]; rfl]
  rfl

theorem dropReturns_eq_nil_iff {line : Bytes} :
    dropReturns line = [] ↔ ∀ b ∈ line, b = Bytes.carriageReturn := by
  rw [dropReturns]
  show List.rdropWhile _ line = [] ↔ _
  simp

/-- A line that ends in something visible has no carriage returns to drop. -/
theorem dropReturns_append {line s : Bytes} (hs : s ≠ [])
    (hno : Bytes.carriageReturn ∉ s) : dropReturns (line ++ s) = line ++ s := by
  show List.rdropWhile _ (line ++ s) = _
  rw [List.rdropWhile_eq_self_iff]
  intro hl hlast
  rw [List.getLast_append_of_ne_nil _ hs, beq_iff_eq] at hlast
  exact hno (hlast ▸ List.getLast_mem hs)

section Line

variable {line : Bytes} (hline : Bytes.newline ∉ line) (returns : Nat)
include hline

theorem cut?_ended (rest : Bytes) : Bytes.cut? Bytes.newline (ended line returns ++ rest) =
    some (line ++ List.replicate returns Bytes.carriageReturn, rest) := by
  rw [Bytes.cut?_eq_some_iff, ended]
  refine ⟨by simp, fun hmem => ?_⟩
  rcases List.mem_append.1 hmem with hmem | hmem
  · exact hline hmem
  · exact absurd (List.eq_of_mem_replicate hmem) (by decide)

/-- A line that does not tell a length is passed over. -/
theorem headers_of_lengthIn?_eq_none (hsolid : (dropReturns line).isEmpty = false)
    (hlength : lengthIn? (dropReturns line) = none) (fuel : Nat) (length : Option Int)
    (rest : Bytes) :
    headers (fuel + 1) length (ended line returns ++ rest) = headers fuel length rest := by
  simp only [headers, cut?_ended hline, dropReturns_append_returns, hsolid, hlength,
    Bool.false_eq_true, if_false]

/-- A line that tells a length replaces the one before. -/
theorem headers_of_lengthIn?_eq_some {n : Int} (hsolid : (dropReturns line).isEmpty = false)
    (hlength : lengthIn? (dropReturns line) = some (.ok n)) (fuel : Nat) (length : Option Int)
    (rest : Bytes) :
    headers (fuel + 1) length (ended line returns ++ rest) = headers fuel (some n) rest := by
  simp only [headers, cut?_ended hline, dropReturns_append_returns, hsolid, hlength,
    Bool.false_eq_true, if_false]

end Line

/-- The empty line ends the headers. -/
theorem headers_empty_line (returns fuel : Nat) (length : Option Int) (rest : Bytes) :
    headers (fuel + 1) length (ended [] returns ++ rest) = .got length rest := by
  have hempty : (dropReturns []).isEmpty = true := rfl
  simp only [headers, cut?_ended (List.not_mem_nil), dropReturns_append_returns, hempty, if_true]

/-- A line about something else is passed over. -/
theorem headers_other (h : OtherHeader) (fuel : Nat) (length : Option Int) (rest : Bytes) :
    headers (fuel + 1) length (ended h.line 0 ++ rest) = headers fuel length rest := by
  have hempty : (dropReturns h.line).isEmpty = false := by
    rw [List.isEmpty_eq_false_iff]
    intro hnil
    obtain ⟨b, hb, hne⟩ := h.not_empty
    exact hne (dropReturns_eq_nil_iff.1 hnil b hb)
  have hlength : lengthIn? (dropReturns h.line) = none := by
    unfold lengthIn?
    split
    · rfl
    · rename_i name value hcut
      obtain ⟨hline, hname⟩ := Bytes.cut?_eq_some_iff.1 hcut
      -- The carriage returns that were dropped belong to what stands after the colon.
      obtain ⟨returns, hreturns⟩ : dropReturns h.line <+: h.line := List.rdropWhile_prefix _ _
      have hwhole : h.line = name ++ Bytes.colon :: (value ++ returns) := by
        rw [← hreturns, hline]
        simp
      have hother := h.other name (value ++ returns) hwhole hname
      rw [if_neg]
      simpa [isLengthName] using hother
  exact headers_of_lengthIn?_eq_none h.one_line 0 hempty hlength fuel length rest

/-- Headers that are not about the length are passed over. -/
theorem headers_others (hs : List OtherHeader) (fuel : Nat) (length : Option Int) (rest : Bytes) :
    headers (hs.length + fuel) length (headerText hs ++ rest) = headers fuel length rest := by
  induction hs with
  | nil => simp [headerText]
  | cons h hs ih =>
    have hfuel : (h :: hs).length + fuel = hs.length + fuel + 1 := by
      rw [List.length_cons]
      omega
    rw [hfuel, headerText_cons, List.append_assoc, headers_other, ih]

theorem length_le_length_headerText (hs : List OtherHeader) :
    hs.length ≤ (headerText hs).length := by
  induction hs with
  | nil => simp
  | cons h hs ih =>
    simp only [headerText_cons, ended, List.length_append, List.length_cons] at *
    omega

section Length

variable {name : Bytes} (hname : name.map Bytes.toLower = Bytes.ofString "content-length")
include hname

/-- The letters of the name are visible, and none of them is the colon. -/
theorem of_mem_name {b : UInt8} (hb : b ∈ name) : isVisible b = true ∧ b ≠ Bytes.colon := by
  have hlower : Bytes.toLower b ∈ Bytes.ofString "content-length" :=
    hname ▸ List.mem_map_of_mem hb
  have hletters : (Bytes.ofString "content-length").all
      (fun c => c == 0x2d || (0x61 ≤ c && c ≤ 0x7a)) = true := rfl
  have hcase := List.all_eq_true.1 hletters _ hlower
  unfold Bytes.toLower at hcase
  simp only [isVisible, Bytes.colon, Bool.and_eq_true, decide_eq_true_eq]
  split at hcase <;> grind

theorem isLengthName_name : isLengthName name = true := by
  have htrimmed : Bytes.trimmed name = name :=
    Bytes.trimmed_spaces_append 0 fun b hb => (of_mem_name hname hb).1
  rw [isLengthName, htrimmed, hname, beq_self_eq_true]

/-- The line of the length tells it. -/
theorem lengthIn?_length {n : Nat} (hn : n < Nat.pow 2 63) :
    lengthIn? (name ++ Bytes.ofString ": " ++ Bytes.ofNat n) = some (.ok n) := by
  have hcut : Bytes.cut? Bytes.colon (name ++ Bytes.ofString ": " ++ Bytes.ofNat n) =
      some (name, Bytes.spaces 1 ++ Bytes.ofNat n) := by
    rw [Bytes.cut?_eq_some_iff]
    refine ⟨?_, fun hmem => (of_mem_name hname hmem).2 rfl⟩
    rw [List.append_assoc]
    rfl
  have hdigits : Bytes.trimmed (Bytes.spaces 1 ++ Bytes.ofNat n) = Bytes.ofNat n := by
    refine Bytes.trimmed_spaces_append 1 fun b hb => ?_
    exact isVisible_of_isDigit (Bytes.isDigit_of_mem_ofNat hb)
  simp only [lengthIn?, hcut, isLengthName_name hname, hdigits, Integer.read_ofNat hn, if_true]

/-- The header with the length of the payload is read, however many returns end it. -/
theorem headers_length {n : Nat} (hn : n < Nat.pow 2 63) (returns fuel : Nat)
    (length : Option Int) (rest : Bytes) :
    headers (fuel + 1) length
        (ended (name ++ Bytes.ofString ": " ++ Bytes.ofNat n) returns ++ rest) =
      headers fuel (some n) rest := by
  have hline : Bytes.newline ∉ name ++ Bytes.ofString ": " ++ Bytes.ofNat n := by
    intro hmem
    rcases List.mem_append.1 hmem with hmem | hmem
    · rcases List.mem_append.1 hmem with hmem | hmem
      · exact absurd (of_mem_name hname hmem).1 (by decide)
      · exact absurd hmem (by decide)
    · exact absurd (Bytes.isDigit_of_mem_ofNat hmem) (by decide)
  -- the returns at the end are all that is dropped, as a number ends in a digit
  have hreturns : dropReturns (name ++ Bytes.ofString ": " ++ Bytes.ofNat n) =
      name ++ Bytes.ofString ": " ++ Bytes.ofNat n := by
    refine dropReturns_append (Bytes.ofNat_ne_nil n) fun hmem => ?_
    exact absurd (Bytes.isDigit_of_mem_ofNat hmem) (by decide)
  refine headers_of_lengthIn?_eq_some hline returns ?_ ?_ fuel length rest
  · rw [hreturns]
    simp [Bytes.ofNat_ne_nil]
  · rw [hreturns]
    exact lengthIn?_length hname hn

end Length

/-! ### Reading a frame -/

/-- The headers of a frame tell the length of its payload. -/
theorem headers_text (f : Frame) (rest : Bytes) :
    headers ((f.text ++ rest).length + 1) none (f.text ++ rest) =
      .got (some f.payload.length) (f.payload ++ rest) := by
  obtain ⟨fuel, hfuel⟩ : ∃ fuel, (f.text ++ rest).length + 1 =
      f.before.length + (f.after.length + (fuel + 1) + 1) := by
    have hbefore := length_le_length_headerText f.before
    have hafter := length_le_length_headerText f.after
    refine ⟨(f.text ++ rest).length - (f.before.length + f.after.length + 1), ?_⟩
    simp only [Frame.text, ended, List.length_append, List.length_singleton] at *
    omega
  have htext : f.text ++ rest = headerText f.before ++
      (ended (f.name ++ Bytes.ofString ": " ++ Bytes.ofNat f.payload.length) f.returns ++
        (headerText f.after ++ (ended [] f.lastReturns ++ (f.payload ++ rest)))) := by
    simp only [Frame.text, List.append_assoc]
  rw [hfuel, htext, headers_others, headers_length f.is_name f.fits, headers_others,
    headers_empty_line]

/-- **A frame is read to its last byte**, whatever its payload is and whatever follows. -/
theorem frame_text (f : Frame) (rest : Bytes) : frame (f.text ++ rest) = .got f.payload rest := by
  have hnot : ¬((f.payload.length : Int) < 0) := by omega
  simp only [frame, headers_text, if_neg hnot, Int.toNat_natCast]
  rw [payload, if_pos (by simp), List.take_left, List.drop_left]

-- Another header, another letter case, and lines that end in different ways.
example : frame (Bytes.ofString "X: y\r\ncontent-LENGTH: 2\n\r\nhi!") =
    .got (Bytes.ofString "hi") (Bytes.ofString "!") := by rfl

/-- The frame that the server itself writes. -/
def Frame.plain (payload : Bytes) (h : payload.length < Nat.pow 2 63) : Frame where
  payload
  fits := h
  name := Bytes.ofString "Content-Length"
  is_name := by decide
  before := []
  after := []
  returns := 1
  lastReturns := 1

theorem Frame.text_plain (payload : Bytes) (h : payload.length < Nat.pow 2 63) :
    (Frame.plain payload h).text = framed payload := by
  have hname : Bytes.ofString "Content-Length" ++ Bytes.ofString ": " =
      Bytes.ofString "Content-Length: " := by decide
  have hend : Bytes.ofString "\r\n\r\n" = ended [] 1 ++ ended [] 1 := by decide
  rw [framed, hend]
  simp [Frame.text, Frame.plain, headerText, ended, ← hname]

/-! ### Serving frames -/

/-- A frame takes at least one byte, for the line feed of its empty line. -/
theorem length_le_length_text (frames : List Frame) :
    frames.length ≤ (frames.flatMap Frame.text).length := by
  induction frames with
  | nil => simp
  | cons f frames ih =>
    simp only [List.flatMap_cons, List.length_append, List.length_cons, Frame.text, ended] at *
    omega

/-- The messages up to the first one that says to exit, with it. -/
def untilExit : List Inbound → List Inbound
  | [] => []
  | m :: ms => if m.method = Bytes.ofString "exit" then [m] else m :: untilExit ms

/-- The messages in payloads, up to the first one that says to exit; a payload that is no message
is left out. -/
def messages (payloads : List Bytes) : List Inbound :=
  untilExit (payloads.filterMap Inbound.read?)

/-- Serving frames is handling the messages in them. The induction is on the frames, and there is
fuel for each. -/
theorem serveUpTo_frames (docs : Documents) (frames : List Frame) {fuel : Nat}
    (h : frames.length < fuel) :
    serveUpTo fuel docs (frames.flatMap Frame.text) =
      let handled := docs.handleAll (messages (frames.map Frame.payload))
      ⟨handled.2, handled.1, none⟩ := by
  induction frames generalizing docs fuel with
  | nil =>
    obtain ⟨fuel, rfl⟩ := Nat.exists_eq_add_of_lt h
    rfl
  | cons f frames ih =>
    obtain ⟨fuel, rfl⟩ : ∃ fuel', fuel = fuel' + 1 := ⟨fuel - 1, by omega⟩
    have hfuel : frames.length < fuel := Nat.lt_of_succ_lt_succ h
    rw [List.flatMap_cons, serveUpTo, frame_text]
    cases hread : Inbound.read? f.payload with
    | none =>
      -- The payload is no message: nothing is sent and nothing changes.
      have hmessages : messages ((f :: frames).map Frame.payload) =
          messages (frames.map Frame.payload) := by
        simp [messages, hread]
      simp only [handle, hread, Bool.false_eq_true, if_false, hmessages, ih docs hfuel]
      rfl
    | some m =>
      by_cases hexit : m.method = Bytes.ofString "exit"
      · have hmessages : messages ((f :: frames).map Frame.payload) = [m] := by
          simp [messages, hread, untilExit, hexit]
        rw [hmessages]
        simp [handle, hread, hexit, Documents.handleAll]
      · have hmessages : messages ((f :: frames).map Frame.payload) =
            m :: messages (frames.map Frame.payload) := by
          simp [messages, hread, untilExit, hexit]
        have hgoes : (m.method == Bytes.ofString "exit") = false := beq_eq_false_iff_ne.2 hexit
        simp only [handle, hread, hgoes, Bool.false_eq_true, if_false, hmessages, ih _ hfuel]
        rfl

/-- A stream of frames that is read to its end, one frame after another: its payloads. -/
inductive Reads : Bytes → List Bytes → Prop
  /-- The stream is over. -/
  | ended {s : Bytes} (h : frame s = .ended) : Reads s []
  /-- A payload is read, and what follows it. -/
  | got {s payload rest : Bytes} {payloads : List Bytes} (h : frame s = .got payload rest)
      (hrest : Reads rest payloads) : Reads s (payload :: payloads)

/-- **What the server writes is read back** as the texts of its messages, if none of them is too
long for a frame. -/
theorem reads_output (sent : List Outbound)
    (h : ∀ m ∈ sent, m.toJson.compact.length < Nat.pow 2 63) :
    Reads (output sent) (sent.map fun m => m.toJson.compact) := by
  induction sent with
  | nil => exact .ended rfl
  | cons m sent ih =>
    have hframe := Frame.text_plain m.toJson.compact (h m List.mem_cons_self)
    rw [output, List.flatMap_cons, ← hframe]
    exact .got (frame_text _ _) (ih fun m' hm' => h m' (List.mem_cons_of_mem m hm'))

/-- **Serving a stream of frames is handling the messages in them.** The stream is served without
an error; the documents after it, and the bytes that are written, are those of handling in turn
the messages in the payloads up to the first one that says to exit; and the bytes can be read
back as frames, which hold the texts of the messages sent and nothing else. -/
theorem serve_frames (docs : Documents) (frames : List Frame) :
    let handled := docs.handleAll (messages (frames.map Frame.payload))
    let served := serve docs (frames.flatMap Frame.text)
    served.error = none ∧ served.documents = handled.1 ∧
      output served.sent = handled.2.flatMap (fun m => framed m.toJson.compact) ∧
      ((∀ m ∈ handled.2, m.toJson.compact.length < Nat.pow 2 63) →
        Reads (output served.sent) (handled.2.map fun m => m.toJson.compact)) := by
  intro handled served
  have hserved : served = ⟨handled.2, handled.1, none⟩ :=
    serveUpTo_frames docs frames (Nat.lt_succ_of_le (length_le_length_text frames))
  rw [hserved]
  exact ⟨rfl, rfl, rfl, reads_output handled.2⟩

end Stream

end Scriptlet
