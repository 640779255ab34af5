import Mathlib.Data.List.Nodup
import Scriptlet.Proofs.Parsing.Reading
import Scriptlet.Script.Grammar

/-!
# What parsers miss

A reply has two halves, and this file is about the second one: what was missed. While it reads, a
parser makes many **attempts** that fail, most of them in alternatives that it gives up or at the
end of a repetition, where failing is in order. `Parser.Fails` says which they are, construct by
construct: at which offset, and what was looked for there. A reply keeps only the furthest of them,
and every failed attempt is in the reply or was made before that offset (`Fails.has`).

What an attempt looked for is of use to a reader only if it would have led on. Whether it would is
not for a single parser to say, as it depends on all that came before and on what can come after; so
it is a parameter, a relation between what was read from some origin on and what was looked for
then. A parser is **honest** for a relation (`Honest`) when all that its replies list are failed
attempts in that relation. Going through a sequence, what the first parser has read goes over to
the second; for the rest, honesty goes through the combinators as it is.

All this is about sources with a limited number of opening brackets, since a grammar that limits
nesting would at some point have to say otherwise.
-/

namespace Scriptlet

/-! ### Records of what was missed -/

namespace Missed

variable {a b : Missed} {o : Nat} {e : Expectation}

/-- A record takes a failure into account: it is listed, or was not the furthest. -/
structure Has (m : Missed) (o : Nat) (e : Expectation) : Prop where
  le : o ≤ m.offset
  mem : o = m.offset → e ∈ m.expected

/-- A failure that the first record takes into account is so in both together. -/
theorem Has.merge_left (h : a.Has o e) (b : Missed) : (a.merge b).Has o e := by
  unfold merge
  split
  · rename_i hlt
    have hlt' := Nat.lt_of_le_of_lt h.le hlt
    exact ⟨Nat.le_of_lt hlt', fun heq => absurd heq (Nat.ne_of_lt hlt')⟩
  · split
    · exact h
    · exact ⟨h.le, fun heq => List.mem_append_left _ (h.mem heq)⟩

/-- A failure that the second record takes into account is so in both together. It may be listed
already, and is then not listed again. -/
theorem Has.merge_right (h : b.Has o e) (a : Missed) : (a.merge b).Has o e := by
  unfold merge
  split
  · exact h
  · split
    · rename_i hlt
      have hlt' := Nat.lt_of_le_of_lt h.le hlt
      exact ⟨Nat.le_of_lt hlt', fun heq => absurd heq (Nat.ne_of_lt hlt')⟩
    · rename_i hge hle
      obtain heq : a.offset = b.offset := Nat.le_antisymm (Nat.not_lt.1 hle) (Nat.not_lt.1 hge)
      refine ⟨heq ▸ h.le, fun ho => ?_⟩
      have hmem := h.mem (ho.trans heq)
      by_cases ha : e ∈ a.expected
      · exact List.mem_append_left _ ha
      · exact List.mem_append_right _ (List.mem_filter.2 ⟨hmem, by simpa using ha⟩)

/-- What two records list together, one of them lists at the same offset. -/
theorem mem_or_mem_of_mem_merge (h : e ∈ (a.merge b).expected) :
    (e ∈ a.expected ∧ (a.merge b).offset = a.offset) ∨
      (e ∈ b.expected ∧ (a.merge b).offset = b.offset) := by
  unfold merge at h ⊢
  -- the record with the greater offset wins, and at the same offset both count
  split at h
  · rename_i hlt
    rw [if_pos hlt]
    exact Or.inr ⟨h, rfl⟩
  · rename_i hge
    rw [if_neg hge]
    split at h
    · rename_i hlt
      rw [if_pos hlt]
      exact Or.inl ⟨h, rfl⟩
    · rename_i hle
      rw [if_neg hle]
      rcases List.mem_append.1 h with h | h
      · exact Or.inl ⟨h, rfl⟩
      · exact Or.inr ⟨(List.mem_filter.1 h).1,
          Nat.le_antisymm (Nat.not_lt.1 hle) (Nat.not_lt.1 hge)⟩

/-- A record lists each thing once, and lists something unless it is empty. -/
structure Proper (m : Missed) : Prop where
  nodup : m.expected.Nodup
  offset_eq_zero : m.expected = [] → m.offset = 0

theorem proper_nothing : nothing.Proper := ⟨List.nodup_nil, fun _ => rfl⟩

theorem proper_one (o : Nat) (e : Expectation) : (one o e).Proper :=
  ⟨List.nodup_singleton e, fun h => absurd h (List.cons_ne_nil _ _)⟩

/-- Together two records list something when the first one does, since an empty record is never
further. -/
theorem merge_ne_nil_left (hb : b.Proper) (h : a.expected ≠ []) : (a.merge b).expected ≠ [] := by
  unfold merge
  split
  · rename_i hlt
    intro hnil
    have := hb.offset_eq_zero hnil
    omega
  · split
    · exact h
    · exact List.append_ne_nil_of_left_ne_nil h _

/-- Together two records list something when the second one does. -/
theorem merge_ne_nil_right (ha : a.Proper) (h : b.expected ≠ []) : (a.merge b).expected ≠ [] := by
  unfold merge
  split
  · exact h
  · split
    · rename_i hlt
      intro hnil
      have := ha.offset_eq_zero hnil
      omega
    · intro hnil
      obtain ⟨hnila, hnilb⟩ := List.append_eq_nil_iff.1 hnil
      rw [hnila] at hnilb
      exact h (by simpa using hnilb)

theorem Proper.merge (ha : a.Proper) (hb : b.Proper) : (a.merge b).Proper := by
  refine ⟨?_, fun hnil => ?_⟩
  · unfold Missed.merge
    split
    · exact hb.nodup
    · split
      · exact ha.nodup
      · refine List.nodup_append.2 ⟨ha.nodup, hb.nodup.filter _, fun x hx y hy heq => ?_⟩
        have hy := (List.mem_filter.1 hy).2
        simp only [decide_eq_true_eq] at hy
        exact hy (heq ▸ hx)
  · have hnila : a.expected = [] := Decidable.byContradiction fun h => merge_ne_nil_left hb h hnil
    have hnilb : b.expected = [] := Decidable.byContradiction fun h => merge_ne_nil_right ha h hnil
    have hzeroa := ha.offset_eq_zero hnila
    have hzerob := hb.offset_eq_zero hnilb
    unfold Missed.merge
    rw [if_neg (by omega), if_neg (by omega)]
    exact hzeroa

end Missed

namespace Parser

variable {α β γ : Type}

/-! ### Failed attempts -/

/-- **The attempts that fail while a parser reads**: from a cursor on, something was looked for at
an offset in vain. -/
inductive Fails : {α : Type} → Parser α → Cursor → Nat → Expectation → Prop where
  /-- A fixed piece of text is not there. -/
  | literal {text c} : (literal text).Refuses c → Fails (literal text) c c.offset (.literal text)
  /-- A run of bytes is empty. -/
  | run {p e c} : (run p e).Refuses c → Fails (run p e) c c.offset e
  /-- A text has no closing quote. -/
  | textBody {c} : Grammar.textBody.Refuses c → Fails Grammar.textBody c c.offset .closingQuote
  /-- The source goes on. -/
  | endOfInput {c} : endOfInput.Refuses c → Fails endOfInput c c.offset .endOfInput
  /-- Nothing could be right. -/
  | fail {α : Type} {e c} : Fails (fail e : Parser α) c c.offset e
  /-- In the first part of a sequence. -/
  | left {α β : Type} {p : Parser α} {f : α → Parser β} {c o e} :
    Fails p c o e → Fails (p >>= f) c o e
  /-- In the second part of a sequence. -/
  | right {α β : Type} {p : Parser α} {f : α → Parser β} {c c' a o e} :
    p.Reads c a c' → Fails (f a) c' o e → Fails (p >>= f) c o e
  /-- In the first alternative. -/
  | first {α : Type} {p q : Parser α} {c o e} : Fails p c o e → Fails (p <|> q) c o e
  /-- In the second alternative, which is tried when the first one fails. -/
  | second {α : Type} {p q : Parser α} {c o e} :
    p.Refuses c → Fails q c o e → Fails (p <|> q) c o e
  /-- In a repetition, the next time. -/
  | once {α : Type} {p : Parser α} {fuel c o e} :
    Fails p c o e → Fails (repeatUpTo p (fuel + 1)) c o e
  /-- In a repetition, some time after that. -/
  | again {α : Type} {p : Parser α} {fuel c c' a o e} :
    p.Reads c a c' → Fails (repeatUpTo p fuel) c' o e → Fails (repeatUpTo p (fuel + 1)) c o e
  /-- In a repetition without a limit. -/
  | many {α : Type} {p : Parser α} {c o e} :
    Fails (repeatUpTo p (c.rest.length + 1)) c o e → Fails (many p) c o e
  /-- In a parser that goes back to a cursor. -/
  | backAt {α : Type} {p : Parser α} {c c' o e} : Fails p c o e → Fails (backAt c p) c' o e
  /-- In a parser that depends on its cursor. -/
  | look {α : Type} {f : Cursor → Parser α} {c o e} :
    Fails (f c) c o e → Fails (fun c => f c c) c o e

theorem missed_bind_of_refuses {p : Parser α} {f : α → Parser β} {c : Cursor} (h : p.Refuses c) :
    ((p >>= f) c).missed = (p c).missed := by
  change (Parser.bind p f c).missed = _
  unfold Parser.bind
  rcases hp : p c with ⟨_ | x, m⟩
  · rfl
  · rw [Refuses, hp] at h
    cases h

/-- A sequence misses what both of its parts miss, when the first one reads. -/
theorem missed_bind_of_reads {p : Parser α} {f : α → Parser β} {c c' : Cursor} {a : α}
    (h : p.Reads c a c') : ((p >>= f) c).missed = (p c).missed.merge (f a c').missed := by
  change (Parser.bind p f c).missed = _
  unfold Parser.bind
  rcases hp : p c with ⟨_ | x, m⟩
  · rw [Reads, hp] at h
    cases h
  · rw [Reads, hp] at h
    cases h
    rfl

/-- A choice that is settled at its first side misses only what that side misses. -/
theorem missed_orElse_of_reads {p q : Parser α} {c c' : Cursor} {a : α} (h : p.Reads c a c') :
    ((p <|> q) c).missed = (p c).missed := by
  change (Parser.orElse p q c).missed = _
  unfold Parser.orElse
  rcases hp : p c with ⟨_ | x, m⟩
  · rw [Reads, hp] at h
    cases h
  · rfl

/-- A choice misses what both of its sides miss, when the first one fails. -/
theorem missed_orElse_of_refuses {p q : Parser α} {c : Cursor} (h : p.Refuses c) :
    ((p <|> q) c).missed = (p c).missed.merge (q c).missed := by
  change (Parser.orElse p q c).missed = _
  unfold Parser.orElse
  rcases hp : p c with ⟨_ | x, m⟩
  · rfl
  · rw [Refuses, hp] at h
    cases h

theorem missed_repeatUpTo_of_refuses {p : Parser α} (fuel : Nat) {c : Cursor} (h : p.Refuses c) :
    (repeatUpTo p (fuel + 1) c).missed = (p c).missed := by
  rw [repeatUpTo]
  rcases hp : p c with ⟨_ | x, m⟩
  · rfl
  · rw [Refuses, hp] at h
    cases h

/-- A repetition misses what its first attempt and the others miss. -/
theorem missed_repeatUpTo_of_reads {p : Parser α} (fuel : Nat) {c c' : Cursor} {a : α}
    (h : p.Reads c a c') :
    (repeatUpTo p (fuel + 1) c).missed = (p c).missed.merge (repeatUpTo p fuel c').missed := by
  rw [repeatUpTo]
  rcases hp : p c with ⟨_ | x, m⟩
  · rw [Reads, hp] at h
    cases h
  · rw [Reads, hp] at h
    cases h
    dsimp only
    rcases repeatUpTo p fuel c' with ⟨_ | x, m'⟩
    · rfl
    · rfl

/-- A parser either refuses or reads. -/
theorem refuses_or_reads (p : Parser α) (c : Cursor) : p.Refuses c ∨ ∃ a c', p.Reads c a c' := by
  rcases hp : (p c).result with _ | ⟨a, c'⟩
  · exact Or.inl hp
  · exact Or.inr ⟨a, c', hp⟩

/-- A parser that looks for one thing, where it stands. -/
def LooksFor (p : Parser α) (e : Expectation) : Prop :=
  ∀ c, (p c).missed = if (p c).result = none then .one c.offset e else .nothing

/-- A parser that looks for one thing misses just that, where it stands. -/
theorem LooksFor.missed_of_refuses {p : Parser α} {e : Expectation} {c : Cursor}
    (hp : p.LooksFor e) (h : p.Refuses c) : (p c).missed = .one c.offset e :=
  (hp c).trans (if_pos h)

theorem looksFor_literal (text : Bytes) : (literal text).LooksFor (.literal text) := by
  intro c
  unfold literal
  split
  · rfl
  · rfl

/-- A run of bytes is looked for as a whole. -/
theorem looksFor_run (p : UInt8 → Bool) (e : Expectation) : (run p e).LooksFor e := by
  intro c
  unfold run
  split
  · rfl
  · rfl

/-- The text between quotes fails only for want of its closing quote. -/
theorem looksFor_textBody : Grammar.textBody.LooksFor .closingQuote := by
  intro c
  unfold Grammar.textBody
  split
  · rfl
  · rfl

theorem looksFor_endOfInput : endOfInput.LooksFor .endOfInput := by
  intro c
  unfold endOfInput
  split
  · rfl
  · rfl

/-- A repetition never fails. -/
theorem not_refuses_repeatUpTo (p : Parser α) (fuel : Nat) (c : Cursor) :
    ¬(repeatUpTo p fuel).Refuses c := by
  induction fuel generalizing c with
  | zero => exact fun h => by cases h
  | succ fuel ih =>
    intro h
    rw [Refuses, repeatUpTo] at h
    rcases hp : p c with ⟨_ | ⟨a, c'⟩, m⟩
    · simp [hp] at h
    · simp only [hp] at h
      split at h
      · rename_i hrest
        exact ih c' (by rw [Refuses, hrest])
      · cases h

/-- **Every failed attempt is in the reply**, or was not the furthest. -/
theorem Fails.has {p : Parser α} {c : Cursor} {o : Nat} {e : Expectation} (h : p.Fails c o e) :
    (p c).missed.Has o e := by
  have hone : ∀ (o : Nat) (e : Expectation), (Missed.one o e).Has o e :=
    fun o e => ⟨Nat.le_refl o, fun _ => List.mem_singleton_self e⟩
  -- the cases are the ways in which an attempt can come to nothing inside of a parser
  induction h with
  | literal hrefuses => exact (looksFor_literal _).missed_of_refuses hrefuses ▸ hone _ _
  | run hrefuses => exact (looksFor_run _ _).missed_of_refuses hrefuses ▸ hone _ _
  | textBody hrefuses => exact looksFor_textBody.missed_of_refuses hrefuses ▸ hone _ _
  | endOfInput hrefuses => exact looksFor_endOfInput.missed_of_refuses hrefuses ▸ hone _ _
  | fail => exact hone _ _
  | @left _ _ p f c _ _ _ ih =>
    rcases refuses_or_reads p c with hp | ⟨a, c', hp⟩
    · rw [missed_bind_of_refuses hp]
      exact ih
    · rw [missed_bind_of_reads hp]
      exact ih.merge_left _
  | right hp _ ih =>
    rw [missed_bind_of_reads hp]
    exact ih.merge_right _
  | @first _ p q c _ _ _ ih =>
    rcases refuses_or_reads p c with hp | ⟨a, c', hp⟩
    · rw [missed_orElse_of_refuses hp]
      exact ih.merge_left _
    · rw [missed_orElse_of_reads hp]
      exact ih
  | second hp _ ih =>
    rw [missed_orElse_of_refuses hp]
    exact ih.merge_right _
  | @once _ p fuel c _ _ _ ih =>
    rcases refuses_or_reads p c with hp | ⟨a, c', hp⟩
    · rw [missed_repeatUpTo_of_refuses fuel hp]
      exact ih
    · rw [missed_repeatUpTo_of_reads fuel hp]
      exact ih.merge_left _
  | again hp _ ih =>
    rw [missed_repeatUpTo_of_reads _ hp]
    exact ih.merge_right _
  | many _ ih => exact ih
  | backAt _ ih => exact ih
  | look _ ih => exact ih

/-! ### Replies that tell the truth -/

/-- **What a reply lists** are failed attempts, each one in the relation `B` to what was read from
the origin on. -/
structure Tells (p : Parser α) (c origin : Cursor) (B : Bytes → Expectation → Prop) : Prop where
  proper : (p c).missed.Proper
  refuses : p.Refuses c → (p c).missed.expected ≠ []
  fails : ∀ e ∈ (p c).missed.expected, p.Fails c (p c).missed.offset e
  good : ∀ e ∈ (p c).missed.expected, ∃ u v, origin.rest = u ++ v ∧
    (p c).missed.offset = origin.offset + u.length ∧ B u e

namespace Tells

variable {p q : Parser α} {f : α → Parser β} {c c' origin : Cursor}
  {B : Bytes → Expectation → Prop}

/-- A parser that misses nothing and does not fail tells the truth. -/
theorem of_nothing (hmissed : (p c).missed = .nothing) (hreads : ¬p.Refuses c) :
    p.Tells c origin B := by
  refine ⟨hmissed ▸ Missed.proper_nothing, fun h => absurd h hreads, ?_, ?_⟩
  · rw [hmissed]
    exact fun e he => absurd he List.not_mem_nil
  · rw [hmissed]
    exact fun e he => absurd he List.not_mem_nil

/-- A parser that looks for one thing tells the truth when it says so. -/
theorem of_one {e : Expectation} (hmissed : (p c).missed = .one c.offset e)
    (hfails : p.Fails c c.offset e) (hB : B [] e) : p.Tells c c B := by
  refine ⟨hmissed ▸ Missed.proper_one _ _, fun _ => hmissed ▸ List.cons_ne_nil _ _, ?_, ?_⟩
  · rw [hmissed]
    intro e' he'
    obtain rfl := List.mem_singleton.1 he'
    exact hfails
  · rw [hmissed]
    intro e' he'
    obtain rfl := List.mem_singleton.1 he'
    exact ⟨[], c.rest, rfl, rfl, hB⟩

theorem mono {B' : Bytes → Expectation → Prop} (hp : p.Tells c origin B)
    (h : ∀ u e, B u e → B' u e) : p.Tells c origin B' := by
  refine ⟨hp.proper, hp.refuses, hp.fails, fun e he => ?_⟩
  obtain ⟨u, v, hrest, hoffset, hB⟩ := hp.good e he
  exact ⟨u, v, hrest, hoffset, h u e hB⟩

/-- The origin may be moved back over what was read since. -/
theorem shift {o : Nat} {t r : Bytes}
    (hp : p.Tells ⟨o + t.length, r⟩ ⟨o + t.length, r⟩ fun u e => B (t ++ u) e) :
    p.Tells ⟨o + t.length, r⟩ ⟨o, t ++ r⟩ B := by
  refine ⟨hp.proper, hp.refuses, hp.fails, fun e he => ?_⟩
  obtain ⟨u, v, rfl, hoffset, hB⟩ := hp.good e he
  refine ⟨t ++ u, v, (List.append_assoc _ _ _).symm, ?_, hB⟩
  rw [hoffset, List.length_append, Nat.add_assoc]

theorem pure (a : α) : (pure a : Parser α).Tells c origin B :=
  of_nothing rfl (fun h => by cases h)

/-- A reply that misses what another one does, with the same failed attempts. -/
theorem of_missed_eq {r : Parser β} (hp : p.Tells c origin B)
    (hmissed : (r c).missed = (p c).missed) (hrefuses : r.Refuses c → p.Refuses c)
    (hfails : ∀ {o e}, p.Fails c o e → r.Fails c o e) : r.Tells c origin B := by
  refine ⟨hmissed ▸ hp.proper, fun h => hmissed ▸ hp.refuses (hrefuses h), ?_, ?_⟩
  · rw [hmissed]
    exact fun e he => hfails (hp.fails e he)
  · rw [hmissed]
    exact hp.good

/-- **A reply that collects two others**, of which one fails if it does. -/
theorem of_merge {r : Parser γ} {q : Parser β} (hp : p.Tells c origin B)
    (hq : q.Tells c' origin B) (hmissed : (r c).missed = (p c).missed.merge (q c').missed)
    (hrefuses : r.Refuses c → p.Refuses c ∨ q.Refuses c')
    (hfailsp : ∀ {o e}, p.Fails c o e → r.Fails c o e)
    (hfailsq : ∀ {o e}, q.Fails c' o e → r.Fails c o e) : r.Tells c origin B := by
  refine ⟨hmissed ▸ hp.proper.merge hq.proper, fun h => ?_, fun e he => ?_, fun e he => ?_⟩
  · rw [hmissed]
    rcases hrefuses h with h | h
    · exact Missed.merge_ne_nil_left hq.proper (hp.refuses h)
    · exact Missed.merge_ne_nil_right hp.proper (hq.refuses h)
  · rw [hmissed] at he ⊢
    rcases Missed.mem_or_mem_of_mem_merge he with ⟨he, hoffset⟩ | ⟨he, hoffset⟩
    · exact hoffset ▸ hfailsp (hp.fails e he)
    · exact hoffset ▸ hfailsq (hq.fails e he)
  · rw [hmissed] at he ⊢
    rcases Missed.mem_or_mem_of_mem_merge he with ⟨he, hoffset⟩ | ⟨he, hoffset⟩
    · exact hoffset ▸ hp.good e he
    · exact hoffset ▸ hq.good e he

/-- What a sequence lists is true, when it is true of its first part, and of the second from
wherever the first one comes to. -/
theorem bind (hp : p.Tells c origin B)
    (hf : ∀ a c', p.Reads c a c' → (f a).Tells c' origin B) : (p >>= f).Tells c origin B := by
  rcases refuses_or_reads p c with hrefuses | ⟨a, c', hreads⟩
  · exact hp.of_missed_eq (missed_bind_of_refuses hrefuses) (fun _ => hrefuses) .left
  · refine hp.of_merge (hf a c' hreads) (missed_bind_of_reads hreads) (fun hrefuses => ?_) .left
      (.right hreads)
    rcases refuses_bind.1 hrefuses with hno | ⟨a', c'', hreads', hno⟩
    · exact Or.inl hno
    · cases hreads.symm.trans hreads'
      exact Or.inr hno

/-- What a choice lists is true, when it is true of both sides. -/
theorem orElse (hp : p.Tells c origin B) (hq : q.Tells c origin B) :
    (p <|> q).Tells c origin B := by
  rcases refuses_or_reads p c with hrefuses | ⟨a, c', hreads⟩
  · exact hp.of_merge hq (missed_orElse_of_refuses hrefuses) (fun _ => Or.inl hrefuses) .first
      (.second hrefuses)
  · exact hp.of_missed_eq (missed_orElse_of_reads hreads) (fun h => (refuses_orElse.1 h).1) .first

theorem backAt (hp : p.Tells c origin B) : (backAt c p).Tells c' origin B :=
  ⟨hp.proper, hp.refuses, fun e he => .backAt (hp.fails e he), hp.good⟩

theorem look {f : Cursor → Parser α} (hf : (f c).Tells c origin B) :
    Tells (fun c => f c c) c origin B :=
  ⟨hf.proper, hf.refuses, fun e he => .look (hf.fails e he), hf.good⟩

end Tells

/-! ### Honest parsers -/

/-- How many brackets a text opens. -/
def openBrackets (s : Bytes) : Nat :=
  s.countP fun b => b == 0x5b || b == 0x28

/-- Brackets are counted from piece to piece. -/
theorem openBrackets_append (s t : Bytes) :
    openBrackets (s ++ t) = openBrackets s + openBrackets t :=
  List.countP_append

/-- **A parser is honest** for a relation, on sources that open fewer than `k` brackets: whatever
its replies list was looked for in vain, and is in that relation to what the parser has read
before. -/
def Honest (k : Nat) (p : Parser α) (B : Bytes → Expectation → Prop) : Prop :=
  ∀ o s, openBrackets s < k → p.Tells ⟨o, s⟩ ⟨o, s⟩ B

namespace Honest

variable {k : Nat} {p q : Parser α} {f : α → Parser β} {B : Bytes → Expectation → Prop}

theorem mono {k' : Nat} {B' : Bytes → Expectation → Prop} (hp : p.Honest k B) (hk : k' ≤ k)
    (h : ∀ u e, B u e → B' u e) : p.Honest k' B' :=
  fun o s hs => (hp o s (Nat.lt_of_lt_of_le hs hk)).mono h

/-- In a sequence, the second parser has to be honest in view of what the first one has read. It
has fewer brackets to reckon with. -/
theorem bind {R : Nat → α → Bytes → Prop} (hp : p.Honest k B) (hsound : p.Sound R)
    (hf : ∀ o a t, R o a t → (f a).Honest (k - openBrackets t) fun u e => B (t ++ u) e) :
    (p >>= f).Honest k B := by
  intro o s hs
  refine (hp o s hs).bind fun a c' hreads => ?_
  obtain ⟨t, r, rfl, rfl, hR⟩ := hsound hreads
  rw [openBrackets_append] at hs
  exact (hf o a t hR _ r (by omega)).shift

theorem orElse (hp : p.Honest k B) (hq : q.Honest k B) : (p <|> q).Honest k B :=
  fun o s hs => (hp o s hs).orElse (hq o s hs)

theorem offset_bind {f : Nat → Parser β}
    (hf : ∀ o, (f o).Honest k B) : (offset >>= f).Honest k B := by
  intro o s hs
  refine (Tells.of_nothing rfl fun h => by cases h).bind fun a c' hreads => ?_
  cases hreads
  exact hf o o s hs

/-- In a repetition, what has been read of it may be longer by one item. -/
theorem repeatUpTo {R : Nat → α → Bytes → Prop} (hp : p.Honest k B) (hsound : p.Sound R)
    (hB : ∀ {o a t u e}, R o a t → B u e → B (t ++ u) e) (fuel : Nat) :
    (repeatUpTo p fuel).Honest k B := by
  induction fuel with
  | zero => exact fun o s _ => .of_nothing rfl fun h => by cases h
  | succ fuel ih =>
    intro o s hs
    have hps := hp o s hs
    rcases refuses_or_reads p ⟨o, s⟩ with hrefuses | ⟨a, c', hreads⟩
    · exact hps.of_missed_eq (missed_repeatUpTo_of_refuses fuel hrefuses) (fun _ => hrefuses) .once
    · have hmissed := missed_repeatUpTo_of_reads fuel hreads
      obtain ⟨t, r, rfl, rfl, hR⟩ := hsound hreads
      rw [openBrackets_append] at hs
      have hrest : (Parser.repeatUpTo p fuel).Tells ⟨o + t.length, r⟩ ⟨o, t ++ r⟩ B :=
        ((ih (o + t.length) r (by omega)).mono fun u e => hB hR).shift
      exact hps.of_merge hrest hmissed (fun h => absurd h (not_refuses_repeatUpTo p _ _)) .once
        (.again hreads)

/-- A repetition is honest, when what was read in earlier rounds leads on to what is read in later
ones. -/
theorem many {R : Nat → α → Bytes → Prop} (hp : p.Honest k B) (hsound : p.Sound R)
    (hB : ∀ {o a t u e}, R o a t → B u e → B (t ++ u) e) : (many p).Honest k B := by
  intro o s hs
  have hrepeat := hp.repeatUpTo hsound hB (s.length + 1) o s hs
  exact ⟨hrepeat.proper, hrepeat.refuses, fun e he => .many (hrepeat.fails e he), hrepeat.good⟩

end Honest

variable {k : Nat} {B : Bytes → Expectation → Prop}

theorem honest_pure (a : α) : (pure a : Parser α).Honest k B :=
  fun _ _ _ => .pure a

/-- A parser that looks for one thing is honest when that thing is in the relation. -/
theorem LooksFor.honest {p : Parser α} {e : Expectation} (hp : p.LooksFor e)
    (hfails : ∀ {c}, p.Refuses c → p.Fails c c.offset e) (hB : B [] e) : p.Honest k B := by
  intro o s _
  by_cases h : p.Refuses ⟨o, s⟩
  · exact .of_one (hp.missed_of_refuses h) (hfails h) hB
  · exact .of_nothing ((hp _).trans (if_neg h)) h

theorem honest_literal {text : Bytes} (hB : B [] (.literal text)) : (literal text).Honest k B :=
  (looksFor_literal text).honest .literal hB

theorem honest_run {p : UInt8 → Bool} {e : Expectation} (hB : B [] e) : (run p e).Honest k B :=
  (looksFor_run p e).honest .run hB

theorem honest_textBody (hB : B [] .closingQuote) : Grammar.textBody.Honest k B :=
  looksFor_textBody.honest .textBody hB

theorem honest_endOfInput (hB : B [] .endOfInput) : endOfInput.Honest k B :=
  looksFor_endOfInput.honest .endOfInput hB

end Parser

end Scriptlet
