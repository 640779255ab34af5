import Scriptlet.Proofs.Server.Documents

/-!
# Replies

A client that asks with an identifier waits for a message with the same identifier, and looks in it
for a result or for an error. One that announces something waits for nothing. So every question has
to be answered once, with its identifier and with one of the two, and an announcement not at all.

`Scriptlet.Documents.handle_replies` says how far the server keeps to this. It replies once to
every question, whether or not it knows the method and can read the details, and the reply has the
identifier. But a result that is the absent value is left out of the reply, as absent members are,
so a reply that has nothing to say (`Scriptlet.Documents.Unsaid`) has neither result nor error: the
one to `shutdown`, and the one about a place without a word. And `initialize` is answered also when
it comes without an identifier.
-/

namespace Scriptlet

namespace Outbound

/-- What a message says in answer to another: its results and its errors. -/
def answers (o : Outbound) : List Json :=
  o.toJson.under "result" ++ o.toJson.under "error"

/-- The identifier is written as one member, and under no other name. -/
theorem under_id (o : Outbound) : o.toJson.under "id" = o.id.toList.map Json.guarded := by
  rcases o with ⟨_ | id, method | (_ | value) | _⟩ <;> rfl

@[simp]
theorem answers_notification (id : Option Json) (method : String) (params : Json) :
    answers ⟨id, .notification method params⟩ = [] := by
  cases id <;> rfl

/-- The absent result is left out. -/
@[simp]
theorem answers_result (id value : Option Json) : answers ⟨id, .result value⟩ = value.toList := by
  cases id <;> cases value <;> rfl

@[simp]
theorem length_answers_error (id : Option Json) (code : Int) (message : String) :
    (answers ⟨id, .error code message⟩).length = 1 := by
  cases id <;> rfl

end Outbound

namespace Documents

/-- The names of announcements. The server takes note of them and replies to none. All other
messages are questions, those that it does not know too. -/
def announcements : List Bytes :=
  ["initialized", "exit", "textDocument/didOpen", "textDocument/didChange",
    "textDocument/didClose"].map Bytes.ofString

/-- There is nothing to say to a question: to shut down, and about a place without a word. -/
def Unsaid (docs : Documents) (m : Inbound) : Prop :=
  m.method = Bytes.ofString "shutdown" ∨
    m.method = Bytes.ofString "textDocument/hover" ∧ ∃ d, Details.place? m.params = some d ∧
      wordAt ((docs.get? d.document.uri).getD []) d.line d.character = []

variable {docs : Documents} {m : Inbound}

theorem hover_eq_none_iff {d : Details} :
    docs.hover d = none ↔
      wordAt ((docs.get? d.document.uri).getD []) d.line d.character = [] := by
  rw [hover]
  split
  · rename_i hempty
    exact iff_of_true rfl (List.isEmpty_iff.1 hempty)
  · rename_i hword
    exact iff_of_false (Option.some_ne_none _) fun hempty => hword (List.isEmpty_iff.2 hempty)

/-- Announcements are told by their methods. -/
theorem mem_announcements_iff :
    m.method ∈ announcements ↔
      Method.ofName m.method ∈ [.initialized, .exit, .opened, .changed, .closed] := by
  simp only [announcements, List.map_cons, List.map_nil, List.mem_cons, List.not_mem_nil,
    ← Method.ofName_eq_iff .initialized rfl, ← Method.ofName_eq_iff .exit rfl,
    ← Method.ofName_eq_iff .opened rfl, ← Method.ofName_eq_iff .changed rfl,
    ← Method.ofName_eq_iff .closed rfl]

/-- An announcement is answered with other announcements at most. -/
theorem answers_of_mem_announcements (hm : m.method ∈ announcements) {o : Outbound}
    (ho : o ∈ (docs.handle m).2) : o.answers = [] := by
  -- a document that is written is announced, and that is no answer
  have hput : ∀ uri text, o ∈ (docs.put uri text).2 → o.answers = [] := by
    intro uri text hsent
    obtain rfl := List.mem_singleton.1 hsent
    exact Outbound.answers_notification _ _ _
  rw [mem_announcements_iff] at hm
  rw [handle] at ho
  cases hk : Method.ofName m.method with
  | initialized | exit => simp [hk] at ho
  | closed =>
    cases hd : Details.opened? m.params <;> simp [hk, hd] at ho
  | opened =>
    cases hd : Details.opened? m.params with
    | none => simp [hk, hd] at ho
    | some d => exact hput d.document.uri d.document.text (by simpa only [hk, hd] using ho)
  | changed =>
    cases hd : Details.changed? m.params with
    | none => simp [hk, hd] at ho
    | some d =>
      cases hlast : d.changes.items.getLast? with
      | none => simp [hk, hd, hlast] at ho
      | some text => exact hput d.document.uri text (by simpa only [hk, hd, hlast] using ho)
  | introduce | shutdown | completion | hover | unknown => simp [hk] at hm

/-- **What the server does with a question**: it has one thing to say, and says it to the one who
asked. Who it is, it also says when nobody asked. -/
theorem exists_content (docs : Documents) (hm : m.method ∉ announcements) :
    ∃ content, (∀ method params, content ≠ .notification method params) ∧
      (content = .result none ↔ docs.Unsaid m) ∧
      (docs.handle m).2 =
        if m.method = Bytes.ofString "initialize" then [⟨m.id, content⟩] else reply m content := by
  rw [mem_announcements_iff] at hm
  simp only [Unsaid, ← Method.ofName_eq_iff .shutdown rfl, ← Method.ofName_eq_iff .hover rfl,
    ← Method.ofName_eq_iff .introduce rfl, handle]
  cases hk : Method.ofName m.method with
  | introduce => exact ⟨.result (some introduction), by simp⟩
  | shutdown => exact ⟨.result none, by simp⟩
  | completion => exact ⟨.result (some completionAnswer), by simp⟩
  | unknown => exact ⟨.error (-32601) "method not found", by simp⟩
  | hover =>
    cases hd : Details.place? m.params with
    | none => exact ⟨.error (-32602) "invalid hover params", by simp⟩
    | some d => exact ⟨.result (docs.hover d), by simp [hover_eq_none_iff]⟩
  | initialized | exit | opened | changed | closed => simp [hk] at hm

/-- **Replies.** A question with an identifier is replied to once. The reply has that identifier,
and a result or an error, not both; it has neither exactly when there is nothing to say. Without an
identifier, only `initialize` gets a message with a result or an error. -/
theorem handle_replies (docs : Documents) (m : Inbound) :
    (∀ id, m.id = some id → m.method ∉ announcements →
      ∃ o, (docs.handle m).2 = [o] ∧ o.toJson.under "id" = [id.guarded] ∧
        o.answers.length ≤ 1 ∧ (o.answers = [] ↔ docs.Unsaid m)) ∧
    (m.id = none →
      ((∃ o ∈ (docs.handle m).2, o.answers ≠ []) ↔ m.method = Bytes.ofString "initialize")) := by
  constructor
  · intro id hid hm
    obtain ⟨content, hcontent, hunsaid, hsent⟩ := exists_content docs hm
    rw [reply, hid, ite_self] at hsent
    refine ⟨⟨some id, content⟩, hsent, Outbound.under_id _, ?_⟩
    rw [← hunsaid]
    cases content with
    | notification method params => exact absurd rfl (hcontent method params)
    | result value => cases value <;> simp
    | error code message =>
      have hlength := Outbound.length_answers_error (some id) code message
      exact ⟨Nat.le_of_eq hlength, iff_of_false (List.ne_nil_of_length_pos (by omega)) (by simp)⟩
  · intro hid
    constructor
    · rintro ⟨o, ho, hanswers⟩
      -- any other method replies to an identifier, and there is none
      by_contra hinit
      have hm : m.method ∉ announcements := fun hm =>
        hanswers (answers_of_mem_announcements hm ho)
      obtain ⟨content, -, -, hsent⟩ := exists_content docs hm
      rw [if_neg hinit, reply, hid] at hsent
      simp [hsent] at ho
    · intro hinit
      have hsent : (docs.handle m).2 = [⟨m.id, .result (some introduction)⟩] := by
        rw [handle, (Method.ofName_eq_iff .introduce rfl).2 hinit]
      exact ⟨_, hsent ▸ List.mem_singleton_self _, by simp⟩

/-- The reply to a request to shut down has an identifier and nothing else. -/
theorem handle_replies_shutdown :
    ∃ o, (Documents.handle .empty
        ⟨some (.number [0x32]), Bytes.ofString "shutdown", none⟩).2 = [o] ∧
      o.toJson.compact = Bytes.ofString "\x7b\"jsonrpc\":\"2.0\",\"id\":2\x7d" ∧
      o.answers = [] := by
  obtain ⟨o, hsent, -, -, hanswers⟩ := (handle_replies .empty
    ⟨some (.number [0x32]), Bytes.ofString "shutdown", none⟩).1 _ rfl (by decide)
  obtain rfl : _ = o := (List.cons.inj hsent).1
  exact ⟨_, rfl, rfl, hanswers.2 (.inl rfl)⟩

end Documents

end Scriptlet
