import Scriptlet.Proofs.Parsing.Attempts
import Scriptlet.Proofs.Text.Columns

/-!
# Where parsers stand

Nothing that the grammar asks for ends with a part of a character: its words are plain, and a text
between quotes, which may hold anything, ends with a quote. So a parser that sets out from a
foothold of the source stands on footholds all the time (`Parser.Steady`). What it misses is missed
at one, and the marks of the tree that it reads are footholds, since nodes begin where a parser
stood, or one blank further on.

No limit on brackets is needed for this, as nothing is said about what was missed.
-/

namespace Scriptlet

/-- A cursor stands at a foothold of a source, with the rest of the source before it. -/
def Cursor.Stands (source : Bytes) (c : Cursor) : Prop :=
  ∃ u, Bytes.EndsPlain u ∧ c.offset = u.length ∧ u ++ c.rest = source

/-- The place of such a cursor is a foothold. -/
theorem Cursor.Stands.foothold {source : Bytes} {c : Cursor} (h : c.Stands source) :
    Foothold source c.offset := by
  obtain ⟨u, hu, hoffset, hsource⟩ := h
  exact ⟨u, c.rest, hsource.symm, hoffset.symm, hu⟩

/-- After a text that ends plain, a cursor stands at a foothold again. -/
theorem Cursor.Stands.after {source t r : Bytes} {o : Nat}
    (h : Cursor.Stands source ⟨o, t ++ r⟩) (ht : Bytes.EndsPlain t) :
    Cursor.Stands source ⟨o + t.length, r⟩ := by
  obtain ⟨u, hu, rfl, hsource⟩ := h
  exact ⟨u ++ t, hu.append ht, List.length_append.symm, by rw [List.append_assoc, hsource]⟩

namespace Parser

variable {α β : Type} {source : Bytes}

/-! ### Steady parsers -/

/-- From a cursor on, a parser misses things at footholds, and comes to a foothold with a value that
is good. -/
structure SteadyAt (source : Bytes) (Good : α → Prop) (p : Parser α) (c : Cursor) : Prop where
  missed : Foothold source (p c).missed.offset
  reads : ∀ a c', p.Reads c a c' → c'.Stands source ∧ Good a

/-- **A steady parser** stands on footholds all the time, once it has set out from one. -/
def Steady (source : Bytes) (Good : α → Prop) (p : Parser α) : Prop :=
  ∀ c, c.Stands source → p.SteadyAt source Good c

theorem foothold_merge {a b : Missed} (ha : Foothold source a.offset)
    (hb : Foothold source b.offset) : Foothold source (a.merge b).offset := by
  unfold Missed.merge
  split
  · exact hb
  · split
    · exact ha
    · exact ha

section Combinators

variable {p q : Parser α} {f : α → Parser β} {c : Cursor} {Good : α → Prop} {Good' : β → Prop}

/-- A sequence is steady where its first part is, when the second part is steady wherever the first
one comes to. -/
theorem SteadyAt.bind (hp : p.SteadyAt source Good c)
    (hf : ∀ a c', p.Reads c a c' → c'.Stands source → Good a →
      (f a).SteadyAt source Good' c') : (p >>= f).SteadyAt source Good' c := by
  constructor
  · rcases refuses_or_reads p c with hrefuses | ⟨a, c', hreads⟩
    · rw [missed_bind_of_refuses hrefuses]
      exact hp.missed
    · obtain ⟨hc', ha⟩ := hp.reads a c' hreads
      rw [missed_bind_of_reads hreads]
      exact foothold_merge hp.missed (hf a c' hreads hc' ha).missed
  · intro b c'' h
    obtain ⟨a, c', hreads, h⟩ := reads_bind.1 h
    obtain ⟨hc', ha⟩ := hp.reads a c' hreads
    exact (hf a c' hreads hc' ha).reads b c'' h

theorem SteadyAt.orElse (hp : p.SteadyAt source Good c) (hq : q.SteadyAt source Good c) :
    (p <|> q).SteadyAt source Good c := by
  constructor
  · rcases refuses_or_reads p c with hrefuses | ⟨a, c', hreads⟩
    · rw [missed_orElse_of_refuses hrefuses]
      exact foothold_merge hp.missed hq.missed
    · rw [missed_orElse_of_reads hreads]
      exact hp.missed
  · intro a c' h
    rcases reads_orElse.1 h with h | ⟨-, h⟩
    · exact hp.reads a c' h
    · exact hq.reads a c' h

theorem Steady.bind (hp : p.Steady source Good)
    (hf : ∀ a, Good a → (f a).Steady source Good') : (p >>= f).Steady source Good' :=
  fun c hc => (hp c hc).bind fun a c' _ hc' ha => hf a ha c' hc'

theorem Steady.orElse (hp : p.Steady source Good) (hq : q.Steady source Good) :
    (p <|> q).Steady source Good :=
  fun c hc => (hp c hc).orElse (hq c hc)

theorem steady_pure {a : α} (ha : Good a) : (pure a : Parser α).Steady source Good := by
  refine fun c hc => ⟨foothold_zero source, fun b c' h => ?_⟩
  obtain ⟨rfl, rfl⟩ := reads_pure.1 h
  exact ⟨hc, ha⟩

theorem steady_offset : offset.Steady source (Foothold source) := by
  refine fun c hc => ⟨foothold_zero source, fun o c' h => ?_⟩
  cases h
  exact ⟨hc, hc.foothold⟩

/-- A parser that looks for one thing is steady when that ends plain. -/
theorem LooksFor.steady {e : Expectation} {R : Nat → α → Bytes → Prop} (hp : p.LooksFor e)
    (hsound : p.Sound R) (hR : ∀ o a t, R o a t → Bytes.EndsPlain t ∧ Good a) :
    p.Steady source Good := by
  intro c hc
  constructor
  · rw [hp c]
    split
    · exact hc.foothold
    · exact foothold_zero source
  · intro a c' hreads
    obtain ⟨o, s⟩ := c
    obtain ⟨t, r, rfl, rfl, h⟩ := hsound hreads
    obtain ⟨ht, ha⟩ := hR _ _ _ h
    exact ⟨hc.after ht, ha⟩

theorem steady_literal {text : Bytes} (ht : Bytes.EndsPlain text) :
    (literal text).Steady source fun _ => True :=
  (looksFor_literal text).steady (sound_literal text) fun _ _ _ h => ⟨h ▸ ht, trivial⟩

/-- A run of plain bytes ends plain. -/
theorem steady_run {accepts : UInt8 → Bool} (e : Expectation)
    (hplain : ∀ b, accepts b = true → b < 0x80) : (run accepts e).Steady source fun _ => True :=
  (looksFor_run accepts e).steady (sound_run accepts e) fun _ _ _ ⟨ht, _, hbs⟩ =>
    ⟨ht ▸ Bytes.endsPlain_of_forall fun b hb => hplain b (hbs b hb), trivial⟩

/-- A text may hold anything, but its closing quote is plain. -/
theorem steady_textBody : Grammar.textBody.Steady source fun _ => True :=
  looksFor_textBody.steady Grammar.sound_textBody fun _ _ _ ⟨ht, _⟩ =>
    ⟨ht ▸ Bytes.endsPlain_concat _ (by decide), trivial⟩

theorem steady_endOfInput : endOfInput.Steady source fun _ => True := by
  refine looksFor_endOfInput.steady (R := fun _ _ t => t = []) ?_ fun _ _ _ h =>
    ⟨h ▸ Bytes.endsPlain_nil, trivial⟩
  intro o s u c' h
  unfold Reads endOfInput at h
  cases s with
  | nil =>
    cases h
    exact ⟨[], [], rfl, rfl, rfl⟩
  | cons b s => cases h

theorem steady_fail (e : Expectation) : (fail e : Parser α).Steady source Good :=
  fun _ hc => ⟨hc.foothold, fun _ _ h => by cases h⟩

/-- What one more repetition reads: nothing when the item is refused, and otherwise an item and what
the others read. -/
theorem of_reads_repeatUpTo {fuel : Nat} {as : List α} {c'' : Cursor}
    (h : (repeatUpTo p (fuel + 1)).Reads c as c'') :
    (as = [] ∧ c'' = c) ∨ ∃ a as' c', as = a :: as' ∧ p.Reads c a c' ∧
      (repeatUpTo p fuel).Reads c' as' c'' := by
  unfold Reads repeatUpTo at h
  rcases hp : p c with ⟨_ | ⟨a, c'⟩, m⟩
  · simp only [hp, Option.some.injEq, Prod.mk.injEq] at h
    exact .inl ⟨h.1.symm, h.2.symm⟩
  · rcases hrest : repeatUpTo p fuel c' with ⟨_ | ⟨as', c₂⟩, m'⟩
    · simp [hp, hrest] at h
    · simp only [hp, hrest, Option.some.injEq, Prod.mk.injEq] at h
      obtain ⟨rfl, rfl⟩ := h
      exact .inr ⟨a, as', c', rfl, by rw [Reads, hp], by rw [Reads, hrest]⟩

/-- A repetition of a steady parser is steady, and its values are good. -/
theorem steady_repeatUpTo (hp : p.Steady source Good) (fuel : Nat) :
    (repeatUpTo p fuel).Steady source fun as => ∀ a ∈ as, Good a := by
  induction fuel with
  | zero =>
    refine fun c hc => ⟨foothold_zero source, fun as c' h => ?_⟩
    cases h
    exact ⟨hc, by simp⟩
  | succ fuel ih =>
    intro c hc
    constructor
    -- what is missed is missed by the first item or by those after it
    · rcases refuses_or_reads p c with hrefuses | ⟨a, c', hreads⟩
      · rw [missed_repeatUpTo_of_refuses fuel hrefuses]
        exact (hp c hc).missed
      · obtain ⟨hc', -⟩ := (hp c hc).reads a c' hreads
        rw [missed_repeatUpTo_of_reads fuel hreads]
        exact foothold_merge (hp c hc).missed (ih c' hc').missed
    · intro as c'' h
      rcases of_reads_repeatUpTo h with ⟨rfl, rfl⟩ | ⟨a, as', c', rfl, hreads, hrest⟩
      · exact ⟨hc, by simp⟩
      · obtain ⟨hc', ha⟩ := (hp c hc).reads a c' hreads
        obtain ⟨hc'', has⟩ := (ih c' hc').reads as' c'' hrest
        exact ⟨hc'', List.forall_mem_cons.2 ⟨ha, has⟩⟩

theorem steady_many (hp : p.Steady source Good) :
    (many p).Steady source fun as => ∀ a ∈ as, Good a :=
  fun c hc =>
    ⟨(steady_repeatUpTo hp _ c hc).missed, (steady_repeatUpTo hp _ c hc).reads⟩

/-- A list with commas of what a steady parser reads. -/
theorem steady_list (hp : p.Steady source Good) :
    (list p).Steady source fun as => ∀ a ∈ as, Good a := by
  have hitem : (do literal (Bytes.ofString ", "); p : Parser α).Steady source Good :=
    (steady_literal (Bytes.endsPlain_concat [0x2c] (by decide))).bind fun _ _ => hp
  refine (hp.bind fun first hfirst => (steady_many hitem).bind fun others hothers =>
    steady_pure (List.forall_mem_cons.2 ⟨hfirst, hothers⟩)).orElse (steady_pure (by simp))

end Combinators

end Parser

/-! ### Firm trees -/

/-- All marks of an expression are footholds. -/
def Expr.Firm (source : Bytes) (e : Expr Nat) : Prop :=
  ∀ k ∈ e.marks, Foothold source k

/-- All marks of a clause are footholds. -/
def Clause.Firm (source : Bytes) (c : Clause Nat) : Prop :=
  ∀ k ∈ c.marks, Foothold source k

/-- All marks of a statement are footholds. -/
def Stmt.Firm (source : Bytes) (s : Stmt Nat) : Prop :=
  ∀ k ∈ s.marks, Foothold source k

section Firm

variable {source : Bytes} {mark : Nat} {e : Expr Nat} {body : List (Clause Nat)}

/-- An expression is firm when its own mark is a foothold and its parts are firm. -/
theorem Expr.firm (hmark : Foothold source e.mark) (h : ∀ c ∈ e.children, c.Firm source) :
    e.Firm source := by
  intro k hk
  rw [marks_eq] at hk
  rcases List.mem_cons.1 hk with rfl | hk
  · exact hmark
  · obtain ⟨c, hc, hk⟩ := List.mem_flatMap.1 hk
    exact h c hc k hk

theorem Clause.firm_assign (hmark : Foothold source mark) (he : e.Firm source) (name : Bytes) :
    (Clause.assign mark name e).Firm source :=
  List.forall_mem_cons.2 ⟨hmark, he⟩

theorem Clause.firm_ret (hmark : Foothold source mark) (he : e.Firm source) :
    (Clause.ret mark e).Firm source :=
  List.forall_mem_cons.2 ⟨hmark, he⟩

theorem Clause.firm_body (hbody : ∀ c ∈ body, c.Firm source) :
    ∀ k ∈ body.flatMap Clause.marks, Foothold source k := by
  intro k hk
  obtain ⟨c, hc, hk⟩ := List.mem_flatMap.1 hk
  exact hbody c hc k hk

/-- The marks of a conditional or a loop. -/
theorem Stmt.firm_block (hmark : Foothold source mark) (he : e.Firm source)
    (hbody : ∀ c ∈ body, c.Firm source) :
    ∀ k ∈ mark :: (e.marks ++ body.flatMap Clause.marks), Foothold source k :=
  List.forall_mem_cons.2 ⟨hmark, List.forall_mem_append.2 ⟨he, Clause.firm_body hbody⟩⟩

end Firm

/-! ### The grammar -/

namespace Grammar

open Scriptlet.Parser

variable {source : Bytes}

/-- A word of plain bytes ends plain. -/
theorem endsPlain_ofWord {word : Bytes} (h : word.all (· < 0x80) = true) :
    Bytes.EndsPlain word :=
  Bytes.endsPlain_of_forall fun b hb => of_decide_eq_true (List.all_eq_true.1 h b hb)

/-- A word of the language. -/
theorem steady_word {word : Bytes} (h : word.all (· < 0x80) = true) :
    (literal word).Steady source fun _ => True :=
  steady_literal (endsPlain_ofWord h)

theorem lt_of_isNameByte (b : UInt8) (h : Bytes.isNameByte b = true) : b < 0x80 := by
  simp only [Bytes.isNameByte, Bool.or_eq_true, Bool.and_eq_true, decide_eq_true_eq,
    beq_iff_eq] at h
  rcases h with ⟨-, h⟩ | rfl
  · exact UInt8.lt_of_le_of_lt h (by decide)
  · decide

theorem lt_of_isDigit (b : UInt8) (h : Bytes.isDigit b = true) : b < 0x80 := by
  simp only [Bytes.isDigit, Bool.and_eq_true, decide_eq_true_eq] at h
  exact UInt8.lt_of_le_of_lt h.2 (by decide)

theorem steady_identifier : identifier.Steady source fun _ => True :=
  steady_run _ lt_of_isNameByte

theorem steady_bool : bool.Steady source (Expr.Firm source) :=
  steady_offset.bind fun _ hmark =>
    ((steady_word rfl).bind fun _ _ => steady_pure (Expr.firm hmark (List.forall_mem_nil _))).orElse
      ((steady_word rfl).bind fun _ _ => steady_pure (Expr.firm hmark (List.forall_mem_nil _)))

theorem steady_number : number.Steady source (Expr.Firm source) :=
  steady_offset.bind fun _ hmark => (steady_run _ lt_of_isDigit).bind fun _ _ =>
    steady_pure (Expr.firm hmark (List.forall_mem_nil _))

theorem steady_text : text.Steady source (Expr.Firm source) :=
  steady_offset.bind fun _ hmark => (steady_word rfl).bind fun _ _ =>
    steady_textBody.bind fun _ _ => steady_pure (Expr.firm hmark (List.forall_mem_nil _))

theorem steady_var : var.Steady source (Expr.Firm source) :=
  steady_offset.bind fun _ hmark => steady_identifier.bind fun _ _ =>
    steady_pure (Expr.firm hmark (List.forall_mem_nil _))

section Inner

variable {inner? : Option (Parser (Expr Nat))} {mark : Nat} {object : Expr Nat}
  (hinner : ∀ inner ∈ inner?, inner.Steady source (Expr.Firm source))

include hinner

/-- What is read inside brackets is steady when it is there at all. -/
theorem steady_enter :
    (enter inner?).Steady source fun inner => inner.Steady source (Expr.Firm source) := by
  cases inner? with
  | none => exact steady_fail _
  | some inner => exact steady_pure (hinner inner rfl)

theorem steady_array : (array inner?).Steady source (Expr.Firm source) :=
  steady_offset.bind fun _ hmark => (steady_word rfl).bind fun _ _ =>
    (steady_enter hinner).bind fun _ hi => (steady_list hi).bind fun _ hes =>
      (steady_word rfl).bind fun _ _ => steady_pure (Expr.firm hmark hes)

theorem steady_primary : (primary inner?).Steady source (Expr.Firm source) :=
  (steady_array hinner).orElse <| steady_bool.orElse <| steady_number.orElse <|
    steady_text.orElse steady_var

theorem steady_arguments :
    (arguments inner?).Steady source fun args => ∀ e ∈ args, e.Firm source :=
  (steady_word rfl).bind fun _ _ => (steady_enter hinner).bind fun _ hi =>
    (steady_list hi).bind fun _ hargs => (steady_word rfl).bind fun _ _ => steady_pure hargs

/-- A member or a method is marked where its object is. -/
theorem steady_access (hmark : Foothold source mark) (ho : object.Firm source) :
    (access inner? mark object).Steady source (Expr.Firm source) :=
  (steady_word rfl).bind fun _ _ => steady_identifier.bind fun name _ =>
    ((steady_arguments hinner).bind fun args hargs =>
      have hchildren := List.forall_mem_cons.2 ⟨ho, hargs⟩
      steady_pure (Expr.firm (e := .method mark object name args) hmark hchildren)).orElse
      (steady_pure (Expr.firm hmark (List.forall_mem_singleton.2 ho)))

theorem steady_index (hmark : Foothold source mark) (ho : object.Firm source) :
    (index inner? mark object).Steady source (Expr.Firm source) :=
  (steady_word rfl).bind fun _ _ => (steady_enter hinner).bind fun _ hi =>
    hi.bind fun _ hplace => (steady_word rfl).bind fun _ _ =>
      steady_pure (Expr.firm hmark
        (List.forall_mem_cons.2 ⟨ho, List.forall_mem_singleton.2 hplace⟩))

theorem steady_call (hmark : Foothold source mark) :
    (call inner? mark).Steady source (Expr.Firm source) :=
  steady_identifier.bind fun _ _ => (steady_arguments hinner).bind fun _ hargs =>
    steady_pure (Expr.firm hmark hargs)

/-- An operand begins with its primary, or is a call. -/
theorem steady_operand : (operand inner?).Steady source (Expr.Firm source) := by
  intro c hc
  have hmark : Foothold source c.offset := hc.foothold
  have hread : SteadyAt source (Expr.Firm source) (primary inner? >>= fun object =>
      access inner? c.offset object <|> index inner? c.offset object <|>
        backAt c (call inner? c.offset) <|> pure object) c := by
    refine (steady_primary hinner c hc).bind fun object c' _ hc' ho => ?_
    -- A call is read from where the operand begins, which is a foothold too.
    have hcall : SteadyAt source (Expr.Firm source) (backAt c (call inner? c.offset)) c' :=
      ⟨(steady_call hinner hmark c hc).missed, (steady_call hinner hmark c hc).reads⟩
    exact (steady_access hinner hmark ho c' hc').orElse <|
      (steady_index hinner hmark ho c' hc').orElse <| hcall.orElse (steady_pure ho c' hc')
  exact ⟨hread.missed, hread.reads⟩

end Inner

/-! ### Binary expressions -/

section Binary

variable {next : Parser (Expr Nat)} (hnext : next.Steady source (Expr.Firm source))

include hnext

/-- An operator is marked one further on than where its parser begins, behind a blank. -/
theorem steady_rightOperand (op : Operator) {left : Expr Nat} (hleft : left.Firm source) :
    (rightOperand next op left).Steady source (Expr.Firm source) := by
  intro c hc
  refine (steady_offset c hc).bind fun mark c₁ hread _ _ => ?_
  cases hread
  have hsymbol : (Bytes.space :: op.symbol ++ [Bytes.space]).all (· < 0x80) = true := by
    cases op <;> rfl
  refine (steady_word hsymbol c hc).bind fun _ c₂ hread hc₂ _ => ?_
  have hmark : Foothold source (c.offset + 1) := by
    obtain ⟨o, s⟩ := c
    obtain ⟨t, r, rfl, -, rfl⟩ := sound_literal _ hread
    have hblank : Bytes.EndsPlain [Bytes.space] := endsPlain_ofWord rfl
    rw [List.cons_append, List.cons_append, ← List.singleton_append] at hc
    exact (hc.after hblank).foothold
  refine (hnext.bind fun right hright => steady_pure (Expr.firm hmark ?_)) c₂ hc₂
  exact List.forall_mem_cons.2 ⟨hleft, List.forall_mem_singleton.2 hright⟩

theorem steady_level (op op' : Operator) :
    (level op op' next).Steady source (Expr.Firm source) :=
  hnext.bind fun _ hleft => (steady_rightOperand hnext op hleft).orElse <|
    (steady_rightOperand hnext op' hleft).orElse (steady_pure hleft)

end Binary

/-- An expression is steady when what is read inside brackets is. -/
theorem steady_expressionWith {inner? : Option (Parser (Expr Nat))}
    (hinner : ∀ inner ∈ inner?, inner.Steady source (Expr.Firm source)) :
    (expressionWith inner?).Steady source (Expr.Firm source) :=
  steady_level (steady_level (steady_level (steady_level (steady_operand hinner) _ _) _ _) _ _) _ _

/-- Expressions, by induction on how many brackets may be open. -/
theorem steady_expressionAt (depth : Nat) :
    (expressionAt depth).Steady source (Expr.Firm source) := by
  induction depth with
  | zero =>
    rw [expressionAt_zero]
    exact steady_expressionWith fun inner h => absurd h (Option.not_mem_none inner)
  | succ depth ih =>
    rw [expressionAt_succ]
    refine steady_expressionWith fun inner h => ?_
    obtain rfl := Option.some.inj h
    exact ih

theorem steady_expression : expression.Steady source (Expr.Firm source) :=
  steady_expressionAt maxNesting

/-! ### Statements -/

theorem steady_clause : clause.Steady source (Clause.Firm source) :=
  (steady_offset.bind fun _ hmark => (steady_word rfl).bind fun _ _ =>
    steady_expression.bind fun _ he => steady_pure (Clause.firm_ret hmark he)).orElse <|
    steady_offset.bind fun _ hmark => steady_identifier.bind fun name _ =>
      (steady_word rfl).bind fun _ _ => steady_expression.bind fun _ he =>
        steady_pure (Clause.firm_assign hmark he name)

theorem steady_body : body.Steady source fun cs => ∀ c ∈ cs, c.Firm source :=
  steady_many ((steady_word rfl).bind fun _ _ => steady_clause)

theorem steady_func : func.Steady source (Stmt.Firm source) :=
  steady_offset.bind fun _ hmark => (steady_word rfl).bind fun _ _ =>
    steady_identifier.bind fun _ _ => (steady_word rfl).bind fun _ _ =>
      (steady_list steady_identifier).bind fun _ _ => (steady_word rfl).bind fun _ _ =>
        steady_body.bind fun _ hbody =>
          steady_pure (List.forall_mem_cons.2 ⟨hmark, Clause.firm_body hbody⟩)

theorem steady_loop : loop.Steady source (Stmt.Firm source) :=
  steady_offset.bind fun _ hmark => (steady_word rfl).bind fun _ _ =>
    steady_expression.bind fun _ he => steady_body.bind fun _ hbody =>
      steady_pure (Stmt.firm_block hmark he hbody)

theorem steady_cond : cond.Steady source (Stmt.Firm source) :=
  steady_offset.bind fun _ hmark => (steady_word rfl).bind fun _ _ =>
    steady_expression.bind fun _ he => steady_body.bind fun _ hbody =>
      steady_pure (Stmt.firm_block hmark he hbody)

theorem steady_statement : statement.Steady source (Stmt.Firm source) :=
  steady_func.orElse <| steady_loop.orElse <| steady_cond.orElse <|
    steady_clause.bind fun _ hc => steady_pure hc

/-- **The whole grammar is steady.** -/
theorem steady_script : script.Steady source fun ss => ∀ s ∈ ss, s.Firm source :=
  steady_statement.bind fun _ hfirst =>
    (steady_many ((steady_word rfl).bind fun _ _ => steady_statement)).bind fun _ hothers =>
      steady_endOfInput.bind fun _ _ => steady_pure (List.forall_mem_cons.2 ⟨hfirst, hothers⟩)

end Grammar

/-! ### Sources -/

theorem stands_start (source : Bytes) : Cursor.Stands source (.start source) :=
  ⟨[], Bytes.endsPlain_nil, rfl, rfl⟩

/-- **What is missing in a source is missing at a foothold.** -/
theorem foothold_of_parseMarked {source : Bytes} {missed : Missed}
    (h : parseMarked source = .error missed) : Foothold source missed.offset := by
  have hmissed := (Grammar.steady_script _ (stands_start source)).missed
  unfold parseMarked at h
  split at h
  · cases h
  · rename_i m hscript
    cases h
    rwa [hscript] at hmissed

/-- **The marks of a parsed tree are footholds.** -/
theorem firm_of_parseMarked {source : Bytes} {ss : List (Stmt Nat)}
    (h : parseMarked source = .ok ss) : ∀ s ∈ ss, s.Firm source := by
  have hreads := (Grammar.steady_script _ (stands_start source)).reads
  unfold parseMarked at h
  split at h
  · rename_i statements c m hscript
    cases h
    exact (hreads ss c (by rw [Parser.Reads, hscript])).2
  · cases h

/-- **The positions in a script** are those of footholds of its source, with which the parser has
marked the tree. -/
theorem exists_mark_of_parse {source : Bytes} {ss : List (Stmt Nat)} {script : Script}
    (hss : parseMarked source = .ok ss) (hscript : parse source = .ok script)
    {stmt : Stmt Position} (hstmt : stmt ∈ script.statements) {p : Position}
    (hp : p ∈ stmt.marks) :
    ∃ k ∈ ss.flatMap Stmt.marks, Foothold source k ∧ p = Position.ofOffset source k := by
  simp only [parse, hss, Except.ok.injEq] at hscript
  subst hscript
  obtain ⟨s, hs, rfl⟩ := List.mem_map.1 hstmt
  rw [Stmt.marks_map] at hp
  obtain ⟨k, hk, rfl⟩ := List.mem_map.1 hp
  exact ⟨k, List.mem_flatMap.2 ⟨s, hs, hk⟩, firm_of_parseMarked hss s hs k hk,
    Position.lookUp_ofOffsets source k⟩

/-- The empty source is no script. -/
theorem ne_nil_of_parse {source : Bytes} {script : Script} (h : parse source = .ok script) :
    source ≠ [] := by
  rintro rfl
  obtain ⟨e, herror⟩ : ∃ e, parse [] = .error e := ⟨_, rfl⟩
  rw [herror] at h
  cases h

end Scriptlet
