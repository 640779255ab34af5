import Mathlib.Data.List.Forall2
import Mathlib.Data.List.Induction
import Scriptlet.Server.Documents

/-!
# The open documents

The documents of the server are told by the messages it has handled, and by no more than a few
of them: a message **writes** a document when it was opened or changed, and **closes** it. Of
all messages about a document only the last one counts. A document is open when it was written
and not closed since (`Scriptlet.Stands`), and then its text is the one that was written last.

What the server says about a document is told by the text that it has at that moment. Diagnostics
are announced with the message that writes the text, and for the text that it writes; a question
about a place is answered from the text alone, and a document that is not open has the empty one.
What an announcement says is told by the members of the objects it consists of
(`Scriptlet.Outbound.Tells`, `Scriptlet.Diagnostic.ShownIn`), as an editor reads them.

One lemma says what a message does to the documents, `Scriptlet.Documents.get?_handle`. A
sequence of messages is taken apart at its end, where the message that counts is looked for.
-/

namespace Scriptlet

/-! ### Messages about documents -/

/-- A message gives a document a text: the text it was opened with, or the last of the texts that
it was changed to. -/
def Inbound.Writes (m : Inbound) (uri text : Bytes) : Prop :=
  (m.method = Bytes.ofString "textDocument/didOpen" ∧
    ∃ d, Details.opened? m.params = some d ∧ d.document.uri = uri ∧ d.document.text = text) ∨
  (m.method = Bytes.ofString "textDocument/didChange" ∧
    ∃ d, Details.changed? m.params = some d ∧ d.document.uri = uri ∧
      d.changes.items.getLast? = some text)

/-- A message closes a document. -/
def Inbound.Closes (m : Inbound) (uri : Bytes) : Prop :=
  m.method = Bytes.ofString "textDocument/didClose" ∧
    ∃ d, Details.opened? m.params = some d ∧ d.document.uri = uri

/-- A message is about the text of a document. -/
def Inbound.Touches (m : Inbound) (uri : Bytes) : Prop :=
  m.Closes uri ∨ ∃ text, m.Writes uri text

/-! ### Messages as editors send them

Which messages are read at all is left to the readers of their details. Those that an editor sends
are among them. -/

namespace Inbound

/-- The message with which an editor opens a document. -/
def opening (uri text : Bytes) : Inbound where
  id := none
  method := Bytes.ofString "textDocument/didOpen"
  params := some (.record
    [("textDocument", .record [("uri", .string uri), ("text", .string text)])])

/-- The message with which an editor changes a document to texts, one after another. -/
def changing (uri : Bytes) (texts : List Bytes) : Inbound where
  id := none
  method := Bytes.ofString "textDocument/didChange"
  params := some (.record
    [("textDocument", .record [("uri", .string uri)]),
     ("contentChanges", .array (texts.map fun text => .record [("text", .string text)]))])

/-- The message with which an editor closes a document. -/
def closing (uri : Bytes) : Inbound where
  id := none
  method := Bytes.ofString "textDocument/didClose"
  params := some (.record [("textDocument", .record [("uri", .string uri)])])

/-- The message with which an editor asks about a place; line and character are as written. -/
def asking (id : Json) (uri line character : Bytes) : Inbound where
  id := some id
  method := Bytes.ofString "textDocument/hover"
  params := some (.record
    [("textDocument", .record [("uri", .string uri)]),
     ("position", .record [("line", .number line), ("character", .number character)])])

/-- A document is opened with its text. -/
theorem writes_opening (uri text : Bytes) :
    (opening uri text).Writes (Json.decode uri) (Json.decode text) :=
  .inl ⟨rfl, ⟨⟨Json.decode uri, Json.decode text⟩, .empty, 0, 0⟩, rfl, rfl, rfl⟩

theorem closes_closing (uri : Bytes) : (closing uri).Closes (Json.decode uri) :=
  ⟨rfl, ⟨⟨Json.decode uri, []⟩, .empty, 0, 0⟩, rfl, rfl⟩

/-- Changes are read one after another. -/
theorem items_changes (texts : List Bytes) :
    Reader.items [] (Reader.record [("text", Reader.text)]) []
        (texts.map fun text => .record [("text", .string text)]) =
      some ⟨texts.map Json.decode, []⟩ := by
  induction texts with
  | nil => rfl
  | cons text texts ih =>
    rw [List.map_cons, Reader.items, List.tail_nil, ih]
    rfl

/-- Of several changes the last one gives the text. -/
theorem writes_changing (uri : Bytes) (texts : List Bytes) (last : Bytes) :
    (changing uri (texts ++ [last])).Writes (Json.decode uri) (Json.decode last) := by
  -- the empty list of changes is read in a way of its own, and this one is not empty
  have hlist : Reader.list [] (Reader.record [("text", Reader.text)]) .empty
      (.array ((texts ++ [last]).map fun text => .record [("text", .string text)])) =
        some ⟨(texts ++ [last]).map Json.decode, []⟩ := by
    rw [Reader.list, ← items_changes]
    · rfl
    · simp
  have hread : Details.changed? (changing uri (texts ++ [last])).params =
      some ⟨⟨Json.decode uri, []⟩, ⟨(texts ++ [last]).map Json.decode, []⟩, 0, 0⟩ := by
    show ((Reader.list [] (Reader.record [("text", Reader.text)]) .empty
      (.array _)).map _).bind _ = _
    rw [hlist]
    rfl
  refine .inr ⟨rfl, _, hread, rfl, ?_⟩
  rw [List.map_append, List.map_singleton]
  exact List.getLast?_concat

/-- A question about a place names the document, the line and the unit in the line. -/
theorem place?_asking (id : Json) (uri : Bytes) {line character : Bytes} {n k : Int}
    (hline : Integer.read line = .ok n) (hcharacter : Integer.read character = .ok k) :
    Details.place? (asking id uri line character).params =
      some ⟨⟨Json.decode uri, []⟩, .empty, n, k⟩ := by
  show ((((Integer.read line).toOption.map _).bind _).bind _) = _
  rw [hline]
  show ((((Integer.read character).toOption.map _).bind _).bind _) = _
  rw [hcharacter]
  rfl

end Inbound

/-! ### What an announcement says -/

/-- The message announces diagnostics. -/
def Outbound.Announces (o : Outbound) : Prop :=
  ∃ params, o.content = .notification "textDocument/publishDiagnostics" params

/-- What an object says under a name. -/
def Json.under (name : String) : Json → List Json
  | .object members =>
    members.filterMap fun m => if m.1 = Bytes.ofString name then some m.2 else none
  | _ => []

/-- **A place is shown** as an object with its line and its character. -/
structure Json.ShowsPlace (j : Json) (line character : Nat) : Prop where
  /-- The line, counted from zero. -/
  line : j.under "line" = [.ofNat line]
  /-- The UTF-16 unit in the line. -/
  character : j.under "character" = [.ofNat character]

/-- **A diagnostic is shown** as an object: its message, how serious it is, who says it, and the
range of the one character that it covers. -/
structure Diagnostic.ShownIn (d : Diagnostic) (j : Json) : Prop where
  /-- What it says. -/
  message : j.under "message" = [.ofText d.message]
  /-- An error has the number 1, a warning the number 2. -/
  severity : j.under "severity" = [.ofNat (if d.severity = .error then 1 else 2)]
  /-- The server has a name. -/
  source : j.under "source" = [.ofLiteral "tiny-lsp"]
  /-- The range goes from the place of the diagnostic to the unit after it. -/
  range : ∃ range start stop, j.under "range" = [range] ∧ range.under "start" = [start] ∧
    range.under "end" = [stop] ∧ start.ShowsPlace d.line d.character ∧
    stop.ShowsPlace d.line (d.character + 1)

/-- **A message tells the diagnostics of a document**: it is an announcement to everyone, with the
name of the document and an object for each diagnostic, in order. -/
structure Outbound.Tells (o : Outbound) (uri : Bytes) (ds : List Diagnostic) : Prop where
  /-- It answers nobody. -/
  id : o.id = none
  /-- It names the document and shows the diagnostics. -/
  content : ∃ params shown, o.content = .notification "textDocument/publishDiagnostics" params ∧
    params.under "uri" = [.ofText uri] ∧ params.under "diagnostics" = [.array shown] ∧
    List.Forall₂ Diagnostic.ShownIn ds shown

theorem Json.showsPlace_placeJson (line character : Nat) :
    (placeJson line character).ShowsPlace line character :=
  ⟨rfl, rfl⟩

/-- A diagnostic is shown in its JSON. -/
theorem Diagnostic.shownIn_toJson (d : Diagnostic) : d.ShownIn d.toJson where
  message := rfl
  severity := by
    rcases d with ⟨line, character, _ | _, message⟩ <;> rfl
  source := rfl
  range := ⟨_, _, _, rfl, rfl, rfl, Json.showsPlace_placeJson _ _, Json.showsPlace_placeJson _ _⟩

theorem Documents.tells_announce (uri text : Bytes) :
    (announce uri text).Tells uri (diagnostics text) where
  id := rfl
  content := by
    refine ⟨_, _, rfl, rfl, rfl, ?_⟩
    rw [List.forall₂_map_right_iff, List.forall₂_same]
    exact fun d _ => d.shownIn_toJson

/-! ### What stands -/

/-- Some message of a sequence satisfies `P`, and none after it satisfies `Q`. -/
def Stands (P Q : Inbound → Prop) (ms : List Inbound) : Prop :=
  ∃ before m later, ms = before ++ m :: later ∧ P m ∧ ∀ m' ∈ later, ¬Q m'

section Stands

variable {P Q : Inbound → Prop}

theorem not_stands_nil : ¬Stands P Q [] := by
  rintro ⟨before, m, later, h, -⟩
  simp at h

/-- What stands after one more message: that message does, or what stood before it does and the
message is not against it. -/
theorem stands_concat {ms : List Inbound} {m : Inbound} :
    Stands P Q (ms ++ [m]) ↔ P m ∨ Stands P Q ms ∧ ¬Q m := by
  constructor
  · rintro ⟨before, m', later, h, hP, hQ⟩
    -- Either nothing follows the message that stands, or the new message is the last to follow.
    rcases List.eq_nil_or_concat later with rfl | ⟨later, m'', rfl⟩
    · obtain ⟨-, hm⟩ := List.append_inj' h rfl
      obtain rfl : m = m' := by simpa using hm
      exact .inl hP
    · rw [List.concat_eq_append] at h hQ
      rw [← List.cons_append, ← List.append_assoc] at h
      obtain ⟨rfl, hm⟩ := List.append_inj' h rfl
      obtain rfl : m = m'' := by simpa using hm
      have hlater : ∀ m' ∈ later, ¬Q m' := fun m' hm' => hQ m' (List.mem_append_left _ hm')
      have hlast : ¬Q m := hQ m (List.mem_append_right _ (List.mem_singleton_self m))
      exact .inr ⟨⟨before, m', later, rfl, hP, hlater⟩, hlast⟩
  · rintro (hP | ⟨⟨before, m', later, rfl, hP, hQ⟩, hm⟩)
    · exact ⟨ms, m, [], rfl, hP, by simp⟩
    · refine ⟨before, m', later ++ [m], by simp, hP, fun m'' hm'' => ?_⟩
      rcases List.mem_append.1 hm'' with hmem | hmem
      · exact hQ m'' hmem
      · obtain rfl : m'' = m := by simpa using hmem
        exact hm

end Stands

namespace Documents

/-- Handles messages one after another: the documents after the last one, and all that is sent. -/
def handleAll (docs : Documents) : List Inbound → Documents × List Outbound
  | [] => (docs, [])
  | m :: ms =>
    let (docs, sent) := docs.handle m
    let (docs, more) := docs.handleAll ms
    (docs, sent ++ more)

/-- The documents after messages that came when none was open. -/
def after (ms : List Inbound) : Documents :=
  (handleAll .empty ms).1

/-- What a place in a text means, as an answer: nothing where there is no word. -/
def explanation (text : Bytes) (line character : Int) : Option Json :=
  let word := wordAt text line character
  if word.isEmpty then none
  else some (.record
    [("contents", .record
      [("kind", .ofLiteral "markdown"), ("value", .ofText (describeWord text word))])])

theorem handleAll_concat (docs : Documents) (ms : List Inbound) (m : Inbound) :
    (docs.handleAll (ms ++ [m])).1 = ((docs.handleAll ms).1.handle m).1 := by
  induction ms generalizing docs with
  | nil => rfl
  | cons m' ms ih => exact ih (docs.handle m').1

theorem after_concat (ms : List Inbound) (m : Inbound) :
    after (ms ++ [m]) = ((after ms).handle m).1 :=
  handleAll_concat .empty ms m

/-! ### One message -/

/-- The name of a method that the server knows. -/
def Method.name? : Method → Option String
  | .introduce => some "initialize"
  | .initialized => some "initialized"
  | .exit => some "exit"
  | .shutdown => some "shutdown"
  | .opened => some "textDocument/didOpen"
  | .changed => some "textDocument/didChange"
  | .closed => some "textDocument/didClose"
  | .completion => some "textDocument/completion"
  | .hover => some "textDocument/hover"
  | .unknown => none

theorem Method.ofName_eq_iff (k : Method) {s : String} (hk : k.name? = some s) {name : Bytes} :
    Method.ofName name = k ↔ name = Bytes.ofString s := by
  constructor
  · intro h
    unfold Method.ofName at h
    iterate 9
      rcases ite_eq_iff.1 h with ⟨hname, rfl⟩ | ⟨-, h⟩
      · cases hk
        exact hname
    subst h
    cases hk
  · rintro rfl
    cases k <;> cases hk <;> rfl

variable {docs : Documents} {m : Inbound} {uri text : Bytes}

/-- A message that writes a document gives it the text and announces its diagnostics. -/
theorem handle_of_writes (h : m.Writes uri text) : docs.handle m = docs.put uri text := by
  rcases h with ⟨hm, d, hd, rfl, rfl⟩ | ⟨hm, d, hd, rfl, hlast⟩
  · simp only [handle, (Method.ofName_eq_iff .opened rfl).2 hm, hd]
  · simp only [handle, (Method.ofName_eq_iff .changed rfl).2 hm, hd, hlast]

/-- A message that closes a document removes it and says nothing. -/
theorem handle_of_closes (h : m.Closes uri) : docs.handle m = (docs.erase uri, []) := by
  obtain ⟨hm, d, hd, rfl⟩ := h
  simp only [handle, (Method.ofName_eq_iff .closed rfl).2 hm, hd]

/-- A reply announces nothing. -/
theorem not_announces_of_mem_reply {content : Content} {o : Outbound}
    (hc : ∀ method params, content ≠ .notification method params) (ho : o ∈ reply m content) :
    ¬o.Announces := by
  rintro ⟨params, hparams⟩
  unfold reply at ho
  split at ho
  · simp at ho
  · obtain rfl : o = _ := by simpa using ho
    exact hc _ _ hparams

/-- **What a message does**: it writes a document, or it closes one, or it leaves all documents
as they are and announces nothing. -/
theorem handle_cases (docs : Documents) (m : Inbound) :
    (∃ uri text, m.Writes uri text) ∨ (∃ uri, m.Closes uri) ∨
      (docs.handle m).1 = docs ∧ ∀ o ∈ (docs.handle m).2, ¬o.Announces := by
  rw [handle]
  cases hm : Method.ofName m.method with
  | introduce =>
    refine .inr (.inr ⟨rfl, fun o ho => ?_⟩)
    obtain rfl : o = _ := by simpa using ho
    simp [Outbound.Announces]
  | initialized => exact .inr (.inr ⟨rfl, by simp⟩)
  | exit => exact .inr (.inr ⟨rfl, by simp⟩)
  | shutdown => exact .inr (.inr ⟨rfl, fun o => not_announces_of_mem_reply (by simp)⟩)
  | opened =>
    cases hd : Details.opened? m.params with
    | none => exact .inr (.inr ⟨rfl, by simp⟩)
    | some d => exact .inl ⟨_, _, .inl ⟨(Method.ofName_eq_iff .opened rfl).1 hm, d, hd, rfl, rfl⟩⟩
  | changed =>
    cases hd : Details.changed? m.params with
    | none => exact .inr (.inr ⟨rfl, by simp⟩)
    | some d =>
      cases hlast : d.changes.items.getLast? with
      | none => exact .inr (.inr (by simp [hlast]))
      | some text =>
        exact .inl ⟨_, _, .inr ⟨(Method.ofName_eq_iff .changed rfl).1 hm, d, hd, rfl, hlast⟩⟩
  | closed =>
    cases hd : Details.opened? m.params with
    | none => exact .inr (.inr ⟨rfl, by simp⟩)
    | some d => exact .inr (.inl ⟨_, (Method.ofName_eq_iff .closed rfl).1 hm, d, hd, rfl⟩)
  | completion => exact .inr (.inr ⟨rfl, fun o => not_announces_of_mem_reply (by simp)⟩)
  | hover =>
    refine .inr (.inr ?_)
    cases Details.place? m.params with
    | none => exact ⟨rfl, fun o => not_announces_of_mem_reply (by simp)⟩
    | some d => exact ⟨rfl, fun o => not_announces_of_mem_reply (by simp)⟩
  | unknown => exact .inr (.inr ⟨rfl, fun o => not_announces_of_mem_reply (by simp)⟩)

/-- A message that is about no document leaves all as they are and announces nothing. -/
theorem handle_of_not_touches (docs : Documents) (h : ∀ uri, ¬m.Touches uri) :
    (docs.handle m).1 = docs ∧ ∀ o ∈ (docs.handle m).2, ¬o.Announces := by
  rcases handle_cases docs m with ⟨uri, text, hw⟩ | ⟨uri, hc⟩ | hkept
  · exact absurd (.inr ⟨text, hw⟩) (h uri)
  · exact absurd (.inl hc) (h uri)
  · exact hkept

end Documents

/-! ### What a message is about

Which document a message writes, and which text, is seen from what handling it does when no
document is open. -/

namespace Inbound

open Documents

variable {m : Inbound} {uri uri' text text' : Bytes}

/-- A message writes at most one document, and one text. -/
theorem Writes.unique (h : m.Writes uri text) (h' : m.Writes uri' text') :
    uri = uri' ∧ text = text' := by
  have hput : put .empty uri text = put .empty uri' text' :=
    (handle_of_writes h).symm.trans (handle_of_writes h')
  have hget : (Table.empty.insert uri text).get? uri = (Table.empty.insert uri' text').get? uri :=
    congrArg (fun p : Documents × List Outbound => p.1.get? uri) hput
  rw [Table.get?_insert, Table.get?_insert, if_pos rfl] at hget
  by_cases huri : uri = uri'
  · rw [if_pos huri] at hget
    exact ⟨huri, Option.some.inj hget⟩
  · rw [if_neg huri] at hget
    cases hget

/-- A message that writes a document closes none. -/
theorem Writes.not_closes (h : m.Writes uri text) : ¬m.Closes uri' := by
  intro h'
  have hput : put .empty uri text = (Table.empty.erase uri', []) :=
    (handle_of_writes h).symm.trans (handle_of_closes h')
  exact absurd (congrArg Prod.snd hput) (List.cons_ne_nil _ _)

end Inbound

/-! ### The documents after messages -/

namespace Documents

variable {m : Inbound} {uri text : Bytes} {ms : List Inbound}

/-- A message that is not about a document leaves it as it is. -/
theorem get?_handle_of_not_touches (docs : Documents) (h : ¬m.Touches uri) :
    (docs.handle m).1.get? uri = docs.get? uri := by
  rcases handle_cases docs m with ⟨uri', text', hw⟩ | ⟨uri', hc⟩ | ⟨hsame, -⟩
  · have huri : uri ≠ uri' := fun huri => h (huri ▸ .inr ⟨text', hw⟩)
    rw [handle_of_writes hw]
    exact (Table.get?_insert docs uri' text' uri).trans (if_neg huri)
  · have huri : uri ≠ uri' := fun huri => h (huri ▸ .inl hc)
    rw [handle_of_closes hc]
    exact (Table.get?_erase docs uri' uri).trans (if_neg huri)
  · rw [hsame]

/-- **The text of a document after a message**: the one that the message writes, or the one before
it when the message is not about the document. -/
theorem get?_handle (docs : Documents) :
    (docs.handle m).1.get? uri = some text ↔
      m.Writes uri text ∨ docs.get? uri = some text ∧ ¬m.Touches uri := by
  by_cases htouches : m.Touches uri
  · rcases id htouches with hc | ⟨text', hw⟩
    · have hget : (docs.handle m).1.get? uri = none := by
        rw [handle_of_closes hc]
        exact (Table.get?_erase docs uri uri).trans (if_pos rfl)
      have hwrites : ¬m.Writes uri text := fun hw => hw.not_closes hc
      simp [hget, hwrites, htouches]
    · have hget : (docs.handle m).1.get? uri = some text' := by
        rw [handle_of_writes hw]
        exact (Table.get?_insert docs uri text' uri).trans (if_pos rfl)
      have hwrites : m.Writes uri text ↔ text' = text :=
        ⟨fun h => (hw.unique h).2, fun h => h ▸ hw⟩
      simp [hget, hwrites, htouches]
  · have hwrites : ¬m.Writes uri text := fun hw => htouches (.inr ⟨text, hw⟩)
    rw [get?_handle_of_not_touches docs htouches]
    simp [hwrites, htouches]

/-- Whether a document is open after a message: the message writes it, or it was open and the
message does not close it. -/
theorem isSome_get?_handle (docs : Documents) :
    ((docs.handle m).1.get? uri).isSome ↔
      (∃ text, m.Writes uri text) ∨ (docs.get? uri).isSome ∧ ¬m.Closes uri := by
  simp only [Option.isSome_iff_exists, get?_handle]
  constructor
  · rintro ⟨text, hw | ⟨hget, hnot⟩⟩
    · exact .inl ⟨text, hw⟩
    · exact .inr ⟨⟨text, hget⟩, fun hc => hnot (.inl hc)⟩
  · rintro (⟨text, hw⟩ | ⟨⟨text, hget⟩, hnot⟩)
    · exact ⟨text, .inl hw⟩
    · by_cases hw : ∃ text, m.Writes uri text
      · obtain ⟨text', hw⟩ := hw
        exact ⟨text', .inl hw⟩
      · exact ⟨text, .inr ⟨hget, fun h => h.elim hnot hw⟩⟩

/-- The text of a document is the one that was written last. -/
theorem get?_after (ms : List Inbound) :
    (after ms).get? uri = some text ↔ Stands (·.Writes uri text) (·.Touches uri) ms := by
  induction ms using List.reverseRecOn with
  | nil =>
    have hget : (after []).get? uri = none := rfl
    simp [hget, not_stands_nil]
  | append_singleton ms m ih => rw [after_concat, get?_handle, ih, stands_concat]

/-- A document is open when it was written and not closed since. -/
theorem isSome_get?_after (ms : List Inbound) :
    ((after ms).get? uri).isSome ↔
      Stands (fun m => ∃ text, m.Writes uri text) (·.Closes uri) ms := by
  induction ms using List.reverseRecOn with
  | nil =>
    have hget : (after []).get? uri = none := rfl
    simp [hget, not_stands_nil]
  | append_singleton ms m ih => rw [after_concat, isSome_get?_handle, ih, stands_concat]

/-- What is announced is announced by the message that writes the text. -/
theorem announced {docs : Documents} {o : Outbound} (ho : o ∈ (docs.handle m).2)
    (hannounces : o.Announces) :
    ∃ uri text, m.Writes uri text ∧ (docs.handle m).1.get? uri = some text ∧
      o.Tells uri (diagnostics text) := by
  rcases handle_cases docs m with ⟨uri, text, hw⟩ | ⟨uri, hc⟩ | ⟨-, hsilent⟩
  · have hsent : o ∈ [announce uri text] := by
      rw [handle_of_writes hw] at ho
      exact ho
    obtain rfl := List.mem_singleton.1 hsent
    exact ⟨uri, text, hw, (get?_handle docs).2 (.inl hw), tells_announce uri text⟩
  · rw [handle_of_closes hc] at ho
    simp at ho
  · exact absurd hannounces (hsilent o ho)

/-- The answer to a question about a place in a document. -/
theorem handle_hover {docs : Documents} {d : Details}
    (hm : m.method = Bytes.ofString "textDocument/hover") (hd : Details.place? m.params = some d) :
    (docs.handle m).2 = m.id.toList.map fun id => ⟨some id,
      .result (explanation ((docs.get? d.document.uri).getD []) d.line d.character)⟩ := by
  simp only [handle, (Method.ofName_eq_iff .hover rfl).2 hm, hd, reply]
  cases m.id <;> rfl

/-- **The documents follow the messages.** After any messages:

* a document is open when it was opened or changed and not closed since;
* its text is the one that it was opened with or changed to last;
* what is announced is the name of a document that the message writes, with the diagnostics of the
  text that it then has; and every message that writes a document sends such an announcement and
  nothing else;
* a question about a place is answered from the text that the document has, and from the empty
  text when it is not open, to the one who asked;
* a message that writes no document and closes none leaves all as they are.

The messages that editors send are read as they are meant: the one that opens a document writes
its text, the one that changes it the last of the texts, the one that closes it closes it, and the
one that asks about a place names the document and the place. -/
theorem documents_follow_messages (ms : List Inbound) :
    (∀ uri, ((after ms).get? uri).isSome ↔
      Stands (fun m => ∃ text, m.Writes uri text) (·.Closes uri) ms) ∧
    (∀ uri text, (after ms).get? uri = some text ↔
      Stands (·.Writes uri text) (·.Touches uri) ms) ∧
    (∀ m, ∀ o ∈ ((after ms).handle m).2, o.Announces →
      ∃ uri text, m.Writes uri text ∧ (after (ms ++ [m])).get? uri = some text ∧
        o.Tells uri (diagnostics text)) ∧
    (∀ m uri text, m.Writes uri text →
      ∃ o, ((after ms).handle m).2 = [o] ∧ o.Tells uri (diagnostics text)) ∧
    (∀ m d, m.method = Bytes.ofString "textDocument/hover" → Details.place? m.params = some d →
      ((after ms).handle m).2 = m.id.toList.map fun id => ⟨some id, .result
        (explanation (((after ms).get? d.document.uri).getD []) d.line d.character)⟩) ∧
    (∀ m, (∀ uri, ¬m.Touches uri) → after (ms ++ [m]) = after ms) ∧
    (∀ uri text, (Inbound.opening uri text).Writes (Json.decode uri) (Json.decode text)) ∧
    (∀ uri texts text,
      (Inbound.changing uri (texts ++ [text])).Writes (Json.decode uri) (Json.decode text)) ∧
    (∀ uri, (Inbound.closing uri).Closes (Json.decode uri)) ∧
    ∀ id uri line character n k, Integer.read line = .ok n → Integer.read character = .ok k →
      ∃ d, Details.place? (Inbound.asking id uri line character).params = some d ∧
        d.document.uri = Json.decode uri ∧ d.line = n ∧ d.character = k := by
  refine ⟨fun uri => isSome_get?_after ms, fun uri text => get?_after ms, ?_, ?_, ?_, ?_,
    Inbound.writes_opening, Inbound.writes_changing, Inbound.closes_closing, ?_⟩
  · intro m o ho hannounces
    rw [after_concat]
    exact announced ho hannounces
  · intro m uri text hw
    rw [handle_of_writes hw]
    exact ⟨announce uri text, rfl, tells_announce uri text⟩
  · intro m d hm hd
    exact handle_hover hm hd
  · intro m hnot
    rw [after_concat]
    exact (handle_of_not_touches (after ms) hnot).1
  · intro id uri line character n k hline hcharacter
    exact ⟨_, Inbound.place?_asking id uri hline hcharacter, rfl, rfl, rfl⟩

end Documents

end Scriptlet
