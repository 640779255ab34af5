import Scriptlet.Proofs.Parsing.Attempts
import Scriptlet.Proofs.Parsing.Completeness

/-!
# Syntax errors tell the truth

The error for a source that is no script names the furthest place at which the parser looked for
something in vain, and lists what it looked for there. Much of that was looked for in alternatives
that were given up later: the arguments of a call after a name that begins like a truth value, a
keyword where an assignment stands, a further line of a body where a new statement begins. The
question is whether a reader may rely on the list: **does every item of it lead on**, so that the
source up to that place, continued by the item, is the beginning of some script?

It does, because no rule of the grammar looks for anything unless all that was read before it,
by whichever alternative, can be completed with it. To say so, every rule gets its **texts**, a set
of byte strings described by the trees they spell, and a rule `Suggests` its texts when each thing
it lists is a way on from what it has read to one of them. What a rule can be completed to is put
together along the grammar, as soundness is. That the texts of scripts are accepted is the
completeness of the parser, so nothing of its order of alternatives has to be looked at again.

An opening bracket is suggested wherever it fits, but the grammar does not accept it any deeper
than `Grammar.maxNesting`; so a source must open fewer brackets than that. In the induction on the
depth the brackets are a budget: a rule that reads one has to deal with one fewer after it.
-/

namespace Scriptlet

open Scriptlet.Parser

variable {α β : Type}

/-! ### Texts of expressions -/

/-- Texts of items with a separator before each. -/
def EachText (sep : Bytes) (L : Bytes → Prop) (t : Bytes) : Prop :=
  ∃ us : List Bytes, (∀ u ∈ us, L u) ∧ t = us.flatMap (sep ++ ·)

/-- Texts of items with commas between them. -/
def ItemTexts (L : Bytes → Prop) (t : Bytes) : Prop :=
  ∃ us, (∀ u ∈ us, L u) ∧ t = Bytes.join (Bytes.ofString ", ") us

/-- **Texts of expressions** that the grammar builds at the level `lvl` with at most `d` brackets
open at once. -/
def ExprText (lvl d : Nat) (t : Bytes) : Prop :=
  ∃ e : Expr Unit, e.Spells t ∧ e.WellFormed ∧ lvl ≤ e.level ∧ e.nesting ≤ d

/-- Texts of primaries. -/
def PrimaryText (d : Nat) (t : Bytes) : Prop :=
  ∃ e : Expr Unit, e.Spells t ∧ e.WellFormed ∧ e.IsPrimary ∧ e.nesting ≤ d

/-- Texts of arguments in which at most `d` brackets are open at once. -/
def ArgumentsText (d : Nat) (t : Bytes) : Prop :=
  ∃ u, ItemTexts (ExprText 0 d) u ∧ t = Bytes.ofString "(" ++ (u ++ Bytes.ofString ")")

section Items

variable {L : Bytes → Prop} {R : Nat → α → Bytes → Prop} {sep t u v : Bytes} {o : Nat} {as : List α}

theorem eachText_nil : EachText sep L [] :=
  ⟨[], fun _ h => absurd h List.not_mem_nil, rfl⟩

/-- One more item in front, with its separator. -/
theorem EachText.cons (hu : L u) (hv : EachText sep L v) : EachText sep L (sep ++ u ++ v) := by
  obtain ⟨us, hus, rfl⟩ := hv
  exact ⟨u :: us, List.forall_mem_cons.2 ⟨hu, hus⟩, rfl⟩

/-- A first item and items with a comma before each make a list of items. -/
theorem EachText.join_cons (hu : L u) (hv : EachText (Bytes.ofString ", ") L v) :
    ItemTexts L (u ++ v) := by
  obtain ⟨us, hus, rfl⟩ := hv
  exact ⟨u :: us, List.forall_mem_cons.2 ⟨hu, hus⟩, (Bytes.join_cons _ u us).symm⟩

theorem itemTexts_nil : ItemTexts L [] :=
  ⟨[], fun _ h => absurd h List.not_mem_nil, rfl⟩

/-- Whatever is read as a list with a separator before each item has such a text, when the items
have the texts they should. -/
theorem eachText_of_eachAt (hE : EachAt (After sep R) o as t) (h : ∀ {o a t}, R o a t → L t) :
    EachText sep L t := by
  induction as generalizing o t with
  | nil =>
    obtain rfl : t = [] := hE
    exact eachText_nil
  | cons a as ih =>
    obtain ⟨t₁, t₂, rfl, ⟨u, rfl, hR⟩, hE⟩ := hE
    exact (ih hE).cons (h hR)

/-- Whatever is read as a list with commas between the items has such a text. -/
theorem itemTexts_of_itemsAt (hI : ItemsAt (Bytes.ofString ", ") R o as t)
    (h : ∀ {o a t}, R o a t → L t) : ItemTexts L t := by
  cases as with
  | nil =>
    obtain rfl : t = [] := hI
    exact itemTexts_nil
  | cons a as =>
    obtain ⟨t₁, t₂, rfl, hR, hE⟩ := hI
    exact (eachText_of_eachAt hE h).join_cons (h hR)

/-- Texts of several trees, when each is the text of a tree. -/
theorem exists_forall₂_of_forall {Q : α → Bytes → Prop} {P : α → Prop} {us : List Bytes}
    (h : ∀ u ∈ us, ∃ a, Q a u ∧ P a) : ∃ as, List.Forall₂ Q as us ∧ ∀ a ∈ as, P a := by
  induction us with
  | nil => exact ⟨[], .nil, fun _ h => absurd h List.not_mem_nil⟩
  | cons u us ih =>
    obtain ⟨⟨a, hQ, hP⟩, hus⟩ := List.forall_mem_cons.1 h
    obtain ⟨as, hQs, hPs⟩ := ih hus
    exact ⟨a :: as, .cons hQ hQs, List.forall_mem_cons.2 ⟨hP, hPs⟩⟩

end Items

section Expressions

variable {lvl d o : Nat} {t u name : Bytes}

/-- Where an expression stands there is the text of an expression: its marks do not matter. -/
theorem Expr.StandsAt.exprText {e : Expr Nat} (h : e.StandsAt lvl d o t) : ExprText lvl d t :=
  ⟨e.bare, Expr.spells_of_spellsAt h.spells, (Expr.wellFormed_map _).2 h.wellFormed,
    (Expr.level_map _ e).symm ▸ h.le_level, (Expr.nesting_map _ e).symm ▸ h.nesting_le⟩

theorem Expr.StandsAt.primaryText {e : Expr Nat} (h : e.StandsAt lvl d o t)
    (hprim : e.IsPrimary) : PrimaryText d t :=
  ⟨e.bare, Expr.spells_of_spellsAt h.spells, (Expr.wellFormed_map _).2 h.wellFormed,
    (Expr.isPrimary_map _).2 hprim, (Expr.nesting_map _ e).symm ▸ h.nesting_le⟩

/-- A text of a tighter level is one of every looser level. -/
theorem ExprText.mono {lvl' : Nat} (h : ExprText lvl d t) (hl : lvl' ≤ lvl) :
    ExprText lvl' d t := by
  obtain ⟨e, hspells, hwf, hlevel, hnesting⟩ := h
  exact ⟨e, hspells, hwf, Nat.le_trans hl hlevel, hnesting⟩

/-- Primaries bind tightest. -/
theorem PrimaryText.exprText (h : PrimaryText d t) : ExprText 4 d t := by
  obtain ⟨e, hspells, hwf, hprim, hnesting⟩ := h
  exact ⟨e, hspells, hwf, hprim.le_level, hnesting⟩

/-- Several expressions have a list of trees. -/
theorem ItemTexts.exists_spellsAll (h : ItemTexts (ExprText 0 d) t) :
    ∃ (es : List (Expr Unit)) (us : List Bytes), Expr.SpellsAll es us ∧ Expr.AllWellFormed es ∧
      Expr.nestingList es ≤ d ∧ t = Bytes.join (Bytes.ofString ", ") us := by
  obtain ⟨us, hus, rfl⟩ := h
  obtain ⟨es, hspells, hes⟩ := exists_forall₂_of_forall hus
  exact ⟨es, us, Expr.spellsAll_iff.2 hspells, Expr.allWellFormed_iff.2 fun e he => (hes e he).1,
    Expr.nestingList_le_iff.2 fun e he => (hes e he).2.2, rfl⟩

theorem isName_a : IsName (Bytes.ofString "a") :=
  ⟨by decide, List.all_eq_true.1 rfl⟩

/-- The letter `a` is an expression at every depth. It stands for any operand that is still to come.
-/
theorem primaryText_a (d : Nat) : PrimaryText d (Bytes.ofString "a") :=
  ⟨.var () (Bytes.ofString "a"), rfl, ⟨isName_a, by decide, by decide⟩, trivial,
    Nat.zero_le d⟩

theorem primaryText_bool (d : Nat) (b : Bool) :
    PrimaryText d (Bytes.ofString (if b then "true" else "false")) :=
  ⟨.bool () b, rfl, trivial, trivial, Nat.zero_le d⟩

theorem primaryText_zero (d : Nat) : PrimaryText d (Bytes.ofString "0") :=
  ⟨.number () _, ⟨by decide, List.all_eq_true.1 rfl, rfl⟩, trivial, trivial, Nat.zero_le d⟩

theorem primaryText_empty (d : Nat) : PrimaryText d [Bytes.doubleQuote, Bytes.doubleQuote] :=
  ⟨.text () [], rfl, List.not_mem_nil, trivial, Nat.zero_le d⟩

/-- Brackets around items make a primary, one bracket deeper. -/
theorem primaryText_array (h : ItemTexts (ExprText 0 d) t) :
    PrimaryText (d + 1) (Bytes.ofString "[" ++ (t ++ Bytes.ofString "]")) := by
  obtain ⟨es, us, hspells, hwf, hnesting, rfl⟩ := h.exists_spellsAll
  exact ⟨.array () es, ⟨us, hspells, by simp⟩, hwf, trivial, Nat.succ_le_succ hnesting⟩

/-- A primary with a member named after it is an expression of the tightest level. -/
theorem PrimaryText.member (h : PrimaryText d t) (hname : IsName name) :
    ExprText 4 d (t ++ (Bytes.ofString "." ++ name)) := by
  obtain ⟨e, hspells, hwf, hprim, hnesting⟩ := h
  exact ⟨.member () e name, ⟨t, hspells, by simp⟩, ⟨hprim, hwf, hname⟩, Nat.le_refl 4, hnesting⟩

theorem PrimaryText.method (h : PrimaryText (d + 1) t) (hname : IsName name)
    (hu : ArgumentsText d u) : ExprText 4 (d + 1) (t ++ (Bytes.ofString "." ++ (name ++ u))) := by
  obtain ⟨e, hspells, hwf, hprim, hnesting⟩ := h
  obtain ⟨v, hv, rfl⟩ := hu
  obtain ⟨es, us, hspells', hwf', hnesting', rfl⟩ := hv.exists_spellsAll
  exact ⟨.method () e name es, ⟨t, us, hspells, hspells', by simp⟩, ⟨hprim, hwf, hname, hwf'⟩,
    Nat.le_refl 4, Nat.max_le.2 ⟨hnesting, Nat.succ_le_succ hnesting'⟩⟩

theorem PrimaryText.index (h : PrimaryText (d + 1) t) (hu : ExprText 0 d u) :
    ExprText 4 (d + 1) (t ++ (Bytes.ofString "[" ++ (u ++ Bytes.ofString "]"))) := by
  obtain ⟨e, hspells, hwf, hprim, hnesting⟩ := h
  obtain ⟨i, hspells', hwf', -, hnesting'⟩ := hu
  exact ⟨.index () e i, ⟨t, u, hspells, hspells', by simp⟩, ⟨hprim, hwf, hwf'⟩, Nat.le_refl 4,
    Nat.max_le.2 ⟨hnesting, Nat.succ_le_succ hnesting'⟩⟩

/-- A name with arguments after it is a call. -/
theorem exprText_call (hname : IsName name) (hu : ArgumentsText d u) :
    ExprText 4 (d + 1) (name ++ u) := by
  obtain ⟨v, hv, rfl⟩ := hu
  obtain ⟨es, us, hspells, hwf, hnesting, rfl⟩ := hv.exists_spellsAll
  exact ⟨.call () name es, ⟨us, hspells, by simp⟩, ⟨hname, hwf⟩, Nat.le_refl 4,
    Nat.succ_le_succ hnesting⟩

/-- Two expressions of the next tighter level with an operator between them are an expression of its
level. -/
theorem ExprText.binary {op : Operator} (ht : ExprText (lvl + 1) d t)
    (hu : ExprText (lvl + 1) d u) (hop : op.level = lvl) :
    ExprText lvl d (t ++ (op.spaced ++ u)) := by
  obtain ⟨e, hspells, hwf, hlevel, hnesting⟩ := ht
  obtain ⟨e', hspells', hwf', hlevel', hnesting'⟩ := hu
  exact ⟨.binary () op e e', ⟨t, u, hspells, hspells', by simp⟩,
    ⟨by omega, by omega, hwf, hwf'⟩, Nat.le_of_eq hop.symm, Nat.max_le.2 ⟨hnesting, hnesting'⟩⟩

theorem argumentsText_empty (d : Nat) :
    ArgumentsText d (Bytes.ofString "(" ++ Bytes.ofString ")") :=
  ⟨[], itemTexts_nil, rfl⟩

end Expressions

/-! ### Texts of statements -/

/-- Texts of clauses. -/
def ClauseText (t : Bytes) : Prop :=
  ∃ c : Clause Unit, c.Spells t ∧ c.WellFormed

/-- Texts of bodies. -/
abbrev BodyText : Bytes → Prop :=
  EachText (Bytes.ofString "\n    ") ClauseText

/-- Texts of statements. -/
def StmtText (t : Bytes) : Prop :=
  ∃ s : Stmt Unit, s.Spells t ∧ s.WellFormed

/-- **A source is accepted** when it is a script. -/
def Accepted (source : Bytes) : Prop :=
  ∃ script, parse source = .ok script

section Statements

variable {o : Nat} {t u v name : Bytes}

/-- Where a clause stands there is the text of a clause. -/
theorem Clause.StandsAt.clauseText {c : Clause Nat} (h : c.StandsAt o t) : ClauseText t :=
  ⟨c.bare, Clause.spells_of_spellsAt h.1, (Clause.wellFormed_map _).2 h.2⟩

/-- Where a statement stands there is the text of a statement. -/
theorem Stmt.StandsAt.stmtText {s : Stmt Nat} (h : s.StandsAt o t) : StmtText t :=
  ⟨s.bare, Stmt.spells_of_spellsAt h.1, (Stmt.wellFormed_map _).2 h.2⟩

theorem clauseText_ret (h : ExprText 0 1000 t) : ClauseText (Bytes.ofString "return " ++ t) := by
  obtain ⟨e, hspells, hwf, -, hnesting⟩ := h
  exact ⟨.ret () e, ⟨t, hspells, rfl⟩, hwf, hnesting⟩

/-- A name, an equals sign and an expression are a clause. -/
theorem clauseText_assign (hname : IsName name) (h : ExprText 0 1000 t) :
    ClauseText (name ++ (Bytes.ofString " = " ++ t)) := by
  obtain ⟨e, hspells, hwf, -, hnesting⟩ := h
  exact ⟨.assign () name e, ⟨t, hspells, by simp⟩, hname, hwf, hnesting⟩

/-- A clause is a statement of its own. -/
theorem ClauseText.stmtText (h : ClauseText t) : StmtText t := by
  obtain ⟨c, hspells, hwf⟩ := h
  exact ⟨.clause c, hspells, hwf⟩

/-- A head with parameters and a body make a definition of a function. -/
theorem stmtText_func (hname : IsName name) (hu : ItemTexts IsName u) (hv : BodyText v) :
    StmtText (Bytes.ofString "func " ++ (name ++ (Bytes.ofString "(" ++
      (u ++ (Bytes.ofString ")" ++ v))))) := by
  obtain ⟨params, hparams, rfl⟩ := hu
  obtain ⟨us, hus, rfl⟩ := hv
  obtain ⟨body, hspells, hbody⟩ := exists_forall₂_of_forall hus
  exact ⟨.func name ⟨(), params, body⟩, ⟨us, hspells, by simp [indented]⟩, hname, hparams, hbody⟩

theorem stmtText_loop (hu : ExprText 0 1000 u) (hv : BodyText v) :
    StmtText (Bytes.ofString "while " ++ (u ++ v)) := by
  obtain ⟨e, hspells, hwf, -, hnesting⟩ := hu
  obtain ⟨us, hus, rfl⟩ := hv
  obtain ⟨body, hspells', hbody⟩ := exists_forall₂_of_forall hus
  exact ⟨.loop () e body, ⟨u, us, hspells, hspells', by simp [indented]⟩, hwf, hnesting, hbody⟩

theorem stmtText_cond (hu : ExprText 0 1000 u) (hv : BodyText v) :
    StmtText (Bytes.ofString "if " ++ (u ++ v)) := by
  obtain ⟨e, hspells, hwf, -, hnesting⟩ := hu
  obtain ⟨us, hus, rfl⟩ := hv
  obtain ⟨body, hspells', hbody⟩ := exists_forall₂_of_forall hus
  exact ⟨.cond () e body, ⟨u, us, hspells, hspells', by simp [indented]⟩, hwf, hnesting, hbody⟩

/-- **Statements on lines of their own are a script**, by completeness of the parser. -/
theorem StmtText.accepted (hu : StmtText u) (hv : EachText [Bytes.newline] StmtText v) :
    Accepted (u ++ v) := by
  obtain ⟨us, hus, rfl⟩ := hv
  obtain ⟨P, hspells, hP⟩ := exists_forall₂_of_forall (List.forall_mem_cons.2 ⟨hu, hus⟩)
  have hne : P ≠ [] := by
    rintro rfl
    cases hspells
  obtain ⟨script, hparse, -⟩ := exists_parse_of_spells ⟨hne, hP⟩
    ⟨u :: us, hspells, (Bytes.join_cons _ u us).symm⟩
  exact ⟨script, hparse⟩

theorem exprText_a (d : Nat) : ExprText 4 d (Bytes.ofString "a") :=
  (primaryText_a d).exprText

theorem clauseText_a : ClauseText (Bytes.ofString "return " ++ Bytes.ofString "a") :=
  clauseText_ret ((exprText_a _).mono (Nat.zero_le 4))

end Statements

/-! ### Expectations that lead on -/

/-- **All that the grammar ever looks for**, but for shallower nesting. -/
def vocabulary : List Expectation :=
  [.literal (Bytes.ofString "["), .literal (Bytes.ofString "]"), .literal (Bytes.ofString "true"),
    .literal (Bytes.ofString "false"), .literal [Bytes.doubleQuote], .literal (Bytes.ofString "("),
    .literal (Bytes.ofString ")"), .literal (Bytes.ofString "."), .literal (Bytes.ofString ", "),
    .literal (Bytes.ofString "return "), .literal (Bytes.ofString " = "),
    .literal (Bytes.ofString "\n    "), .literal (Bytes.ofString "func "),
    .literal (Bytes.ofString "while "), .literal (Bytes.ofString "if "),
    .literal [Bytes.newline], .identifier, .number, .closingQuote, .endOfInput] ++
  Operator.all.map fun op => .literal op.spaced

/-- No two things that the grammar looks for have the same name in a message. -/
theorem nodup_labels_vocabulary : (vocabulary.map Expectation.label).Nodup := by
  decide +kernel

/-- The grammar looks for each of the operators. -/
theorem spaced_mem_vocabulary (op : Operator) : .literal op.spaced ∈ vocabulary := by
  refine List.mem_append_right _ (List.mem_map_of_mem ?_)
  cases op <;> decide

/-- The text meets the expectation: it is the fixed piece of text, a name, a run of digits or a
quote. No text meets the expectation that there is none, or that it should be less deep. -/
def Expectation.Meets : Expectation → Bytes → Prop
  | .literal text, w => w = text
  | .identifier, w => IsName w
  | .number, w => w ≠ [] ∧ ∀ b ∈ w, Bytes.isDigit b = true
  | .closingQuote, w => w = [Bytes.doubleQuote]
  | .endOfInput, _ | .shallowerNesting, _ => False

/-- **What was read leads on**, through something that was looked for, to one of the texts `L`. -/
def LeadsOn (L : Bytes → Prop) (u : Bytes) (e : Expectation) : Prop :=
  e ∈ vocabulary ∧ ∃ w x, e.Meets w ∧ L (u ++ (w ++ x))

/-- What leads on from a longer text leads on from its end, to the texts that remain. -/
theorem leadsOn_append {L : Bytes → Prop} {t u : Bytes} {e : Expectation} :
    LeadsOn L (t ++ u) e ↔ LeadsOn (fun y => L (t ++ y)) u e := by
  simp only [LeadsOn, List.append_assoc]

/-- **A parser suggests texts** `L` when all that its replies list leads on from what it has read to
one of them. -/
def Parser.Suggests (k : Nat) (p : Parser α) (L : Bytes → Prop) : Prop :=
  p.Honest k (LeadsOn L)

namespace Parser.Suggests

variable {k : Nat} {p q : Parser α} {f : α → Parser β} {L L' : Bytes → Prop}
  {R : Nat → α → Bytes → Prop}

/-- A parser suggests whatever its own texts begin. -/
theorem extend (hp : p.Suggests k L) (h : ∀ {y}, L y → ∃ z, L' (y ++ z)) : p.Suggests k L' := by
  refine Honest.mono hp (Nat.le_refl k) fun u e hB => ?_
  obtain ⟨hmem, w, x, hw, hL⟩ := hB
  obtain ⟨z, hz⟩ := h hL
  exact ⟨hmem, w, x ++ z, hw, by simpa using hz⟩

/-- A parser that suggests texts suggests more texts. -/
theorem mono (hp : p.Suggests k L) (h : ∀ {y}, L y → L' y) : p.Suggests k L' :=
  hp.extend fun {y} hy => ⟨[], (List.append_nil y).symm ▸ h hy⟩

/-- In a sequence, the second parser has to suggest what completes the text read by the first. -/
theorem bind (hp : p.Suggests k L) (hsound : p.Sound R)
    (hf : ∀ o a t, R o a t → (f a).Suggests k fun y => L (t ++ y)) : (p >>= f).Suggests k L :=
  Honest.bind hp hsound fun o a t hR =>
    Honest.mono (hf o a t hR) (Nat.sub_le _ _) fun _ _ => leadsOn_append.2

/-- A choice suggests what both of its sides suggest. -/
theorem orElse (hp : p.Suggests k L) (hq : q.Suggests k L) : (p <|> q).Suggests k L :=
  Honest.orElse hp hq

theorem offset_bind {f : Nat → Parser β} (hf : ∀ o, (f o).Suggests k L) :
    (offset >>= f).Suggests k L :=
  Honest.offset_bind hf

end Parser.Suggests

namespace Parser

variable {k : Nat} {L : Bytes → Prop} {R : Nat → α → Bytes → Prop}

theorem suggests_pure (a : α) : (pure a : Parser α).Suggests k L :=
  honest_pure a

/-- A fixed piece of text is suggested when one of the texts begins with it. -/
theorem suggests_literal {text : Bytes} (hmem : .literal text ∈ vocabulary)
    (h : ∃ x, L (text ++ x)) : (literal text).Suggests k L := by
  obtain ⟨x, hx⟩ := h
  exact honest_literal ⟨hmem, text, x, rfl, hx⟩

/-- The most frequent sequence: a fixed piece of text and what comes after it. -/
theorem suggests_literal_bind {text : Bytes} {p : Parser α} (hmem : .literal text ∈ vocabulary)
    (h : ∃ x, L (text ++ x)) (hp : p.Suggests k fun y => L (text ++ y)) :
    (literal text >>= fun _ => p).Suggests k L := by
  refine (suggests_literal hmem h).bind (sound_literal text) ?_
  rintro o a t rfl
  exact hp

/-- After an opening bracket, one bracket fewer has to be reckoned with. -/
theorem suggests_bracket_bind {text : Bytes} {p : Parser α} (htext : openBrackets text = 1)
    (hmem : .literal text ∈ vocabulary) (h : ∃ x, L (text ++ x))
    (hp : p.Suggests k fun y => L (text ++ y)) :
    (literal text >>= fun _ => p).Suggests (k + 1) L := by
  refine Honest.bind (suggests_literal hmem h) (sound_literal text) ?_
  rintro o a t rfl
  rw [htext]
  exact Honest.mono hp (Nat.le_refl k) fun _ _ => leadsOn_append.2

/-- Items with a separator before each, when there is some item. -/
theorem suggests_many {item : Parser α} (sep : Bytes) (hi : item.Suggests k L)
    (hsound : item.Sound R) (hR : ∀ {o a t}, R o a t → L t) (hmem : .literal sep ∈ vocabulary)
    (h : ∃ x, L x) :
    (many (do literal sep; item : Parser α)).Suggests k (EachText sep L) := by
  obtain ⟨x, hx⟩ := h
  have hone : ∀ {y}, L y → EachText sep L (sep ++ y) := by
    intro y hy
    rw [← List.append_nil (sep ++ y)]
    exact eachText_nil.cons hy
  refine Honest.many ?_ (sound_after sep hsound) ?_
  · exact suggests_literal_bind hmem ⟨x, hone hx⟩ (hi.mono hone)
  · rintro o a t u e ⟨v, rfl, hv⟩ ⟨hmem, w, x, hw, hL⟩
    refine ⟨hmem, w, x, hw, ?_⟩
    rw [List.append_assoc]
    exact hL.cons (hR hv)

/-- Items with commas between them, when there is some item. -/
theorem suggests_list {item : Parser α} (hi : item.Suggests k L) (hsound : item.Sound R)
    (hR : ∀ {o a t}, R o a t → L t) (h : ∃ x, L x) : (list item).Suggests k (ItemTexts L) := by
  have hmany := suggests_many (Bytes.ofString ", ") hi hsound hR (by decide) h
  refine Suggests.orElse (Suggests.bind (hi.extend fun hy => ⟨[], ?_⟩) hsound
    fun o a t ht => ?_) (suggests_pure [])
  · exact eachText_nil.join_cons hy
  · exact Suggests.bind (hmany.mono fun hy => hy.join_cons (hR ht))
      (sound_after _ hsound).many fun _ _ _ _ => suggests_pure _

end Parser

namespace Grammar

variable {k d : Nat} {L : Bytes → Prop} {inner : Parser (Expr Nat)}

/-- A name is suggested when one of the texts begins with a name. -/
theorem suggests_identifier (h : ∃ name x, IsName name ∧ L (name ++ x)) :
    identifier.Suggests k L := by
  obtain ⟨name, x, hname, hx⟩ := h
  exact honest_run ⟨by decide, name, x, hname, hx⟩

/-- One level of nesting is left, so entering it misses nothing. -/
theorem suggests_enter_bind {f : Parser (Expr Nat) → Parser α} (hf : (f inner).Suggests k L) :
    (enter (some inner) >>= f).Suggests k L := by
  refine Suggests.bind (suggests_pure inner) (sound_pure inner) ?_
  rintro o a t ⟨rfl, rfl⟩
  exact hf

/-! ### Primaries without brackets -/

theorem suggests_bool : bool.Suggests k (PrimaryText d) := by
  refine Suggests.offset_bind fun mark => Suggests.orElse ?_ ?_
  · exact suggests_literal_bind (by decide) ⟨[], primaryText_bool d true⟩ (suggests_pure _)
  · exact suggests_literal_bind (by decide) ⟨[], primaryText_bool d false⟩ (suggests_pure _)

/-- A number may stand where a primary may. -/
theorem suggests_number : number.Suggests k (PrimaryText d) := by
  refine Suggests.offset_bind fun mark => Suggests.bind ?_ (sound_run _ _)
    fun _ _ _ _ => suggests_pure _
  exact honest_run ⟨by decide, Bytes.ofString "0", [], ⟨by decide, List.all_eq_true.1 rfl⟩,
    primaryText_zero d⟩

/-- A text without a closing quote is at fault right after its opening quote, where a quote would
make it empty. -/
theorem suggests_text : text.Suggests k (PrimaryText d) := by
  refine Suggests.offset_bind fun mark => suggests_literal_bind (by decide)
    ⟨_, primaryText_empty d⟩ ?_
  refine Suggests.bind ?_ sound_textBody fun _ _ _ _ => suggests_pure _
  exact honest_textBody ⟨by decide, _, [], rfl, primaryText_empty d⟩

theorem suggests_var : var.Suggests k (PrimaryText d) :=
  Suggests.offset_bind fun _ => Suggests.bind
    (suggests_identifier ⟨_, [], isName_a, primaryText_a d⟩) sound_identifier
    fun _ _ _ _ => suggests_pure _

/-! ### Brackets and postfix forms

Between the brackets of a rule stands an `inner` expression, which is sound and suggests
expressions that open fewer brackets. -/

section Inner

variable (hs : inner.Sound (Expr.StandsAt 0 d)) (hi : inner.Suggests d (ExprText 0 d))

include hs in
/-- What is read inside brackets stands there, one bracket less deep. -/
theorem innerSound_some : InnerSound (d + 1) (some inner) := by
  intro inner' h
  obtain rfl := Option.some.inj h
  exact ⟨d, rfl, hs⟩

include hs hi

theorem suggests_inner_list : (list inner).Suggests d (ItemTexts (ExprText 0 d)) :=
  suggests_list hi hs (fun h => h.exprText) ⟨_, (exprText_a d).mono (Nat.zero_le 4)⟩

/-- Inside an array comes an item or its end. -/
theorem suggests_array : (array (some inner)).Suggests (d + 1) (PrimaryText (d + 1)) := by
  refine Suggests.offset_bind fun mark => suggests_bracket_bind rfl (by decide)
    ⟨_, primaryText_array itemTexts_nil⟩ (suggests_enter_bind ?_)
  refine Suggests.bind ((suggests_inner_list hs hi).extend fun hy => ⟨_, primaryText_array hy⟩)
    hs.list fun o es t hes => ?_
  exact suggests_literal_bind (by decide)
    ⟨[], primaryText_array (itemTexts_of_itemsAt hes fun h => h.exprText)⟩ (suggests_pure _)

/-- Where a primary may stand, every kind of primary is suggested. -/
theorem suggests_primary : (primary (some inner)).Suggests (d + 1) (PrimaryText (d + 1)) :=
  (suggests_array hs hi).orElse <| suggests_bool.orElse <| suggests_number.orElse <|
    suggests_text.orElse suggests_var

/-- Inside parentheses comes an argument or their end. -/
theorem suggests_arguments : (arguments (some inner)).Suggests (d + 1) (ArgumentsText d) := by
  refine suggests_bracket_bind rfl (by decide) ⟨_, argumentsText_empty d⟩
    (suggests_enter_bind ?_)
  refine Suggests.bind ((suggests_inner_list hs hi).extend fun {y} hy => ⟨_, y, hy, rfl⟩)
    hs.list fun o es t hes => ?_
  exact suggests_literal_bind (by decide)
    ⟨[], t, itemTexts_of_itemsAt hes fun h => h.exprText, by simp⟩ (suggests_pure _)

/-- After a primary comes a member or a method. All that is looked for leads on, since `t` and what
was read so far can be completed. -/
theorem suggests_access {t : Bytes} (ht : PrimaryText (d + 1) t) (mark : Nat)
    (object : Expr Nat) :
    (access (some inner) mark object).Suggests (d + 1) fun y => ExprText 4 (d + 1) (t ++ y) := by
  refine suggests_literal_bind (by decide) ⟨_, ht.member isName_a⟩ ?_
  refine Suggests.bind (suggests_identifier ⟨_, [], isName_a, ht.member isName_a⟩)
    sound_identifier ?_
  rintro o name t' ⟨rfl, hname⟩
  refine Suggests.orElse ?_ (suggests_pure _)
  exact Suggests.bind ((suggests_arguments hs hi).mono fun hy => ht.method hname hy)
    (sound_arguments (innerSound_some hs)) fun _ _ _ _ => suggests_pure _

theorem suggests_index {t : Bytes} (ht : PrimaryText (d + 1) t) (mark : Nat) (object : Expr Nat) :
    (index (some inner) mark object).Suggests (d + 1) fun y => ExprText 4 (d + 1) (t ++ y) := by
  refine suggests_bracket_bind rfl (by decide)
    ⟨_, ht.index ((exprText_a d).mono (Nat.zero_le 4))⟩ (suggests_enter_bind ?_)
  refine Suggests.bind (hi.extend fun hy => ⟨_, ht.index hy⟩) hs
    fun o place t' hplace => ?_
  exact suggests_literal_bind (by decide) ⟨[], ht.index hplace.exprText⟩ (suggests_pure _)

/-- Where an operand may stand, a call may stand. -/
theorem suggests_call (mark : Nat) :
    (call (some inner) mark).Suggests (d + 1) (ExprText 4 (d + 1)) := by
  refine Suggests.bind (suggests_identifier
    ⟨_, _, isName_a, exprText_call isName_a (argumentsText_empty d)⟩) sound_identifier ?_
  rintro o name t ⟨rfl, hname⟩
  exact Suggests.bind ((suggests_arguments hs hi).mono (exprText_call hname))
    (sound_arguments (innerSound_some hs)) fun _ _ _ _ => suggests_pure _

/-- **Operands suggest operands.** The call at the end goes back to where the primary began, so it
has to be compared with what was read since then, whatever the primary has made of it. -/
theorem suggests_operand : (operand (some inner)).Suggests (d + 1) (ExprText 4 (d + 1)) := by
  intro o s hbudget
  have hprimary := (suggests_primary hs hi).mono PrimaryText.exprText
  refine Tells.look (f := fun c => do
    let object ← primary (some inner)
    access (some inner) c.offset object <|> index (some inner) c.offset object <|>
      backAt c (call (some inner) c.offset) <|> pure object) ?_
  refine (hprimary o s hbudget).bind fun object c' hreads => ?_
  have hcall : (backAt ⟨o, s⟩ (call (some inner) o)).Tells c' ⟨o, s⟩
      (LeadsOn (ExprText 4 (d + 1))) := (suggests_call hs hi o o s hbudget).backAt
  obtain ⟨t, r, rfl, rfl, hobject, hprim⟩ := sound_primary (innerSound_some hs) hreads
  have ht := hobject.primaryText hprim
  -- the other forms go on after the primary, which the origin has to be moved over
  have hshift : ∀ {p : Parser (Expr Nat)},
      p.Suggests (d + 1) (fun y => ExprText 4 (d + 1) (t ++ y)) →
      p.Tells ⟨o + t.length, r⟩ ⟨o, t ++ r⟩ (LeadsOn (ExprText 4 (d + 1))) := by
    intro p hp
    rw [openBrackets_append] at hbudget
    exact ((hp (o + t.length) r (by omega)).mono fun _ _ => leadsOn_append.2).shift
  exact (hshift (suggests_access hs hi ht o object)).orElse <|
    (hshift (suggests_index hs hi ht o object)).orElse <| hcall.orElse (.pure object)

end Inner

/-! ### Binary expressions -/

/-- After the left operand comes the operator, then the right operand. -/
theorem suggests_rightOperand {lvl : Nat} {next : Parser (Expr Nat)}
    (hn : next.Suggests k (ExprText (lvl + 1) d)) (hsound : next.Sound (Expr.StandsAt (lvl + 1) d))
    {op : Operator} (hop : op.level = lvl) {t : Bytes} (ht : ExprText (lvl + 1) d t)
    (left : Expr Nat) :
    (rightOperand next op left).Suggests k fun y => ExprText lvl d (t ++ y) := by
  have hlevel : lvl + 1 ≤ 4 := by
    cases op <;> subst hop <;> decide
  refine Suggests.offset_bind fun mark => suggests_literal_bind (spaced_mem_vocabulary op)
    ⟨_, ht.binary ((exprText_a d).mono hlevel) hop⟩ ?_
  exact Suggests.bind (hn.mono fun hy => ht.binary hy hop) hsound
    fun _ _ _ _ => suggests_pure _

/-- A level suggests its first operand, then either of its two operators. -/
theorem suggests_level {lvl : Nat} {next : Parser (Expr Nat)}
    (hn : next.Suggests k (ExprText (lvl + 1) d)) (hsound : next.Sound (Expr.StandsAt (lvl + 1) d))
    {op op' : Operator} (hop : op.level = lvl) (hop' : op'.level = lvl) :
    (level op op' next).Suggests k (ExprText lvl d) := by
  refine Suggests.bind (hn.mono fun hy => hy.mono (Nat.le_succ lvl)) hsound
    fun o left t hleft => ?_
  exact (suggests_rightOperand hn hsound hop hleft.exprText left).orElse <|
    (suggests_rightOperand hn hsound hop' hleft.exprText left).orElse (suggests_pure left)

/-- **Going one bracket deeper keeps suggestions true**: when what is read inside brackets suggests
expressions of `d` brackets, the whole suggests those of one more. -/
theorem suggests_expressionWith (hs : inner.Sound (Expr.StandsAt 0 d))
    (hi : inner.Suggests d (ExprText 0 d)) :
    (expressionWith (some inner)).Suggests (d + 1) (ExprText 0 (d + 1)) := by
  -- each level needs both halves of the next tighter one
  have hlevel : ∀ {lvl : Nat} {next : Parser (Expr Nat)} {op op' : Operator},
      next.Sound (Expr.StandsAt (lvl + 1) (d + 1)) ∧
        next.Suggests (d + 1) (ExprText (lvl + 1) (d + 1)) →
      op.level = lvl → op'.level = lvl →
      (level op op' next).Sound (Expr.StandsAt lvl (d + 1)) ∧
        (level op op' next).Suggests (d + 1) (ExprText lvl (d + 1)) :=
    fun hn hop hop' => ⟨sound_level hn.1 hop hop', suggests_level hn.2 hn.1 hop hop'⟩
  refine And.right (a := (expressionWith (some inner)).Sound (Expr.StandsAt 0 (d + 1))) ?_
  refine hlevel (hlevel (hlevel (hlevel ⟨?_, ?_⟩ rfl rfl) rfl rfl) rfl rfl) rfl rfl
  · exact sound_operand (innerSound_some hs)
  · exact suggests_operand hs hi

/-- **Expressions suggest expressions**, by induction on the number of brackets that may be opened.
A source that opens fewer brackets than none does not exist. -/
theorem suggests_expressionAt (d : Nat) : (expressionAt d).Suggests d (ExprText 0 d) := by
  induction d with
  | zero => exact fun o s hbudget => absurd hbudget (Nat.not_lt_zero _)
  | succ d ih =>
    rw [expressionAt_succ]
    exact suggests_expressionWith (sound_expressionAt d) ih

/-! ### Statements -/

theorem suggests_expression : expression.Suggests 1000 (ExprText 0 1000) :=
  suggests_expressionAt maxNesting

theorem suggests_ret : ret.Suggests 1000 ClauseText := by
  refine Suggests.offset_bind fun mark => suggests_literal_bind (by decide)
    ⟨_, clauseText_a⟩ ?_
  exact Suggests.bind (suggests_expression.mono clauseText_ret) sound_expression
    fun _ _ _ _ => suggests_pure _

/-- An assignment suggests its name, the equals sign and its value. -/
theorem suggests_assign : assign.Suggests 1000 ClauseText := by
  have ha : ExprText 0 1000 (Bytes.ofString "a") := (exprText_a _).mono (Nat.zero_le 4)
  refine Suggests.offset_bind fun mark => Suggests.bind
    (suggests_identifier ⟨_, _, isName_a, clauseText_assign isName_a ha⟩) sound_identifier ?_
  rintro o name t ⟨rfl, hname⟩
  refine suggests_literal_bind (by decide) ⟨_, clauseText_assign hname ha⟩ ?_
  exact Suggests.bind (suggests_expression.mono (clauseText_assign hname))
    sound_expression fun _ _ _ _ => suggests_pure _

theorem suggests_clause : clause.Suggests 1000 ClauseText :=
  suggests_ret.orElse suggests_assign

/-- A body suggests the indentation of its clauses and the clauses. -/
theorem suggests_body : body.Suggests 1000 BodyText :=
  suggests_many _ suggests_clause sound_clause (fun h => h.clauseText) (by decide)
    ⟨_, clauseText_a⟩

/-- A definition suggests its head piece by piece, the parameters with their commas, and its body.
-/
theorem suggests_func : func.Suggests 1000 StmtText := by
  have hempty : ∀ {name}, IsName name → StmtText (Bytes.ofString "func " ++ (name ++
      (Bytes.ofString "(" ++ ([] ++ (Bytes.ofString ")" ++ []))))) :=
    fun hname => stmtText_func hname itemTexts_nil eachText_nil
  refine Suggests.offset_bind fun mark => suggests_literal_bind (by decide)
    ⟨_, hempty isName_a⟩ ?_
  refine Suggests.bind (suggests_identifier ⟨_, _, isName_a, hempty isName_a⟩) sound_identifier ?_
  rintro o name t ⟨rfl, hname⟩
  refine suggests_literal_bind (by decide) ⟨_, hempty hname⟩ ?_
  have hparam : identifier.Suggests 1000 IsName :=
    suggests_identifier ⟨_, [], isName_a, isName_a⟩
  have hparams := suggests_list hparam sound_identifier (fun h => h.1 ▸ h.2) ⟨_, isName_a⟩
  refine Suggests.bind (hparams.extend fun hy => ⟨_, stmtText_func hname hy eachText_nil⟩)
    sound_params ?_
  rintro o params t ⟨rfl, hparams⟩
  have hitems : ItemTexts IsName (Bytes.join (Bytes.ofString ", ") params) := ⟨params, hparams, rfl⟩
  refine suggests_literal_bind (by decide)
    ⟨[], stmtText_func hname hitems eachText_nil⟩ ?_
  exact Suggests.bind (suggests_body.mono (stmtText_func hname hitems)) sound_body
    fun _ _ _ _ => suggests_pure _

/-- A keyword, a condition and a body. -/
theorem suggests_block {word : Bytes} (hmem : .literal word ∈ vocabulary)
    (hword : ∀ {u v}, ExprText 0 1000 u → BodyText v → StmtText (word ++ (u ++ v)))
    (g : Nat → Expr Nat → List (Clause Nat) → Stmt Nat) :
    (do let mark ← offset; literal word; let e ← expression; let cs ← body; pure (g mark e cs) :
      Parser (Stmt Nat)).Suggests 1000 StmtText := by
  refine Suggests.offset_bind fun mark => suggests_literal_bind hmem
    ⟨_, hword ((exprText_a _).mono (Nat.zero_le 4)) eachText_nil⟩ ?_
  refine Suggests.bind (suggests_expression.mono fun {y} hy => ?_) sound_expression
    fun o e t he => ?_
  · simpa using hword hy eachText_nil
  · exact Suggests.bind (suggests_body.mono (hword he.exprText)) sound_body
      fun _ _ _ _ => suggests_pure _

/-- **Statements suggest statements.** -/
theorem suggests_statement : statement.Suggests 1000 StmtText := by
  refine suggests_func.orElse <| (suggests_block (by decide) stmtText_loop _).orElse <|
    (suggests_block (by decide) stmtText_cond _).orElse ?_
  exact Suggests.bind (suggests_clause.mono ClauseText.stmtText) sound_clause
    fun _ _ _ _ => suggests_pure _

theorem sound_endOfInput : endOfInput.Sound fun _ _ t => t = [] := by
  intro o s u c' h
  obtain rfl := eq_nil_of_reads_endOfInput h
  cases h
  exact ⟨[], [], rfl, rfl, rfl⟩

/-- **Scripts are honest**: what is listed leads on to an accepted source, and where the source
might end, what was read is accepted. -/
theorem honest_script : script.Honest 1000 fun u e =>
    LeadsOn Accepted u e ∨ (e = .endOfInput ∧ Accepted u) := by
  have hmany := suggests_many [Bytes.newline] suggests_statement sound_statement
    (fun h => h.stmtText) (by decide) ⟨_, clauseText_a.stmtText⟩
  have hfirst : statement.Suggests 1000 Accepted :=
    Suggests.extend suggests_statement fun hy => ⟨[], hy.accepted eachText_nil⟩
  refine Honest.bind (Honest.mono hfirst (Nat.le_refl _) fun _ _ => Or.inl) sound_statement
    fun o first t hfirst => ?_
  have hothers := hmany.mono hfirst.stmtText.accepted
  refine Honest.bind (Honest.mono hothers (Nat.sub_le _ _) fun _ _ h => Or.inl (leadsOn_append.2 h))
    (sound_after _ sound_statement).many fun o' others t' hothers => ?_
  refine Honest.bind (honest_endOfInput (Or.inr ⟨rfl, ?_⟩)) sound_endOfInput
    fun _ _ _ _ => honest_pure _
  rw [List.append_nil]
  exact hfirst.stmtText.accepted (eachText_of_eachAt hothers fun h => h.stmtText)

end Grammar

/-! ### Syntax errors -/

/-- The error of a rejected source is made from what the grammar has missed. -/
theorem eq_toError_of_parse {s : Bytes} {error : SyntaxError} (h : parse s = .error error) :
    Grammar.script.Refuses (.start s) ∧
      error = (Grammar.script (.start s)).missed.toError s := by
  unfold parse parseMarked at h
  unfold Refuses
  rcases hscript : Grammar.script (.start s) with ⟨_ | ⟨statements, c⟩, missed⟩
  · simp only [hscript, Except.error.injEq] at h
    exact ⟨rfl, h.symm⟩
  · simp [hscript] at h

/-- What the grammar lists, it lists under different names. -/
theorem nodup_labels {expected : List Expectation} (hmem : ∀ e ∈ expected, e ∈ vocabulary)
    (hnodup : expected.Nodup) : (expected.map Expectation.label).Nodup :=
  hnodup.map_on fun e he e' he' heq =>
    List.inj_on_of_nodup_map nodup_labels_vocabulary (hmem e he) (hmem e' he') heq

/-- The end of the source leads nowhere. -/
theorem LeadsOn.ne_endOfInput {L : Bytes → Prop} {u : Bytes} {e : Expectation}
    (h : LeadsOn L u e) : e ≠ .endOfInput := by
  rintro rfl
  obtain ⟨-, w, x, hw, -⟩ := h
  exact hw

/-- The record behind the error of a rejected source: it takes every failed attempt into account,
lists nothing but failed attempts, and all that it lists is right at the offset it names. -/
theorem exists_missed_of_parse {s : Bytes} {error : SyntaxError} (hs : openBrackets s < 1000)
    (h : parse s = .error error) :
    ∃ m : Missed, error = m.toError s ∧ m.expected ≠ [] ∧ m.expected.Nodup ∧
      (∀ {o e}, Grammar.script.Fails (.start s) o e → m.Has o e) ∧
      (∀ e ∈ m.expected, Grammar.script.Fails (.start s) m.offset e) ∧
      ∀ e ∈ m.expected, ∃ u v, s = u ++ v ∧ m.offset = u.length ∧
        (LeadsOn Accepted u e ∨ (e = .endOfInput ∧ Accepted u)) := by
  obtain ⟨hrefuses, herror⟩ := eq_toError_of_parse h
  have htells := Grammar.honest_script 0 s hs
  refine ⟨_, herror, htells.refuses hrefuses, htells.proper.nodup, Fails.has, htells.fails,
    fun e he => ?_⟩
  obtain ⟨u, v, hsplit, hoffset, hB⟩ := htells.good e he
  exact ⟨u, v, hsplit, hoffset.trans (Nat.zero_add _), hB⟩

/-- **Syntax errors tell the truth.** Let a source that opens fewer than 1000 brackets be rejected.
The error is at the furthest offset `o` at which an attempt has failed, and lists what was looked
for there, all of it and nothing else, under different names. Each item leads on: the source up to
`o`, continued by a text that meets the item, can be completed to an accepted source; and where
the end of the source is listed, the source up to `o` is accepted as it stands. -/
theorem syntaxError_tells_truth {s : Bytes} {error : SyntaxError} (hs : openBrackets s < 1000)
    (h : parse s = .error error) :
    ∃ (o : Nat) (expected : List Expectation),
      (o ≤ s.length ∧ ∀ o' e, Grammar.script.Fails (.start s) o' e → o' ≤ o) ∧
      (∀ e, e ∈ expected ↔ Grammar.script.Fails (.start s) o e) ∧
      error.position = Position.ofOffset s o ∧
      error.message = Bytes.ofString "expected " ++ orList (expected.map Expectation.label) ++
        Bytes.ofString ", got " ++ describeInput (s.drop o) ∧
      expected ≠ [] ∧ (expected.map Expectation.label).Nodup ∧
      ∀ e ∈ expected, (e = .endOfInput → Accepted (s.take o)) ∧
        (e ≠ .endOfInput → ∃ w x, e.Meets w ∧ Accepted (s.take o ++ w ++ x)) := by
  obtain ⟨m, rfl, hne, hnodup, hhas, hfails, hgood⟩ := exists_missed_of_parse hs h
  refine ⟨m.offset, m.expected, ⟨?_, fun o' e h => (hhas h).le⟩,
    fun e => ⟨hfails e, fun h => (hhas h).mem rfl⟩, rfl, rfl, hne,
    nodup_labels (fun e he => ?_) hnodup, fun e he => ?_⟩
  -- the offset is the length of what was read
  · obtain ⟨e, he⟩ := List.exists_mem_of_ne_nil _ hne
    obtain ⟨u, v, rfl, hoffset, -⟩ := hgood e he
    rw [hoffset, List.length_append]
    omega
  · obtain ⟨u, v, -, -, hlead | ⟨rfl, -⟩⟩ := hgood e he
    · exact hlead.1
    · decide
  · obtain ⟨u, v, rfl, hoffset, hB⟩ := hgood e he
    rw [hoffset, List.take_left]
    rcases hB with hlead | ⟨rfl, haccepted⟩
    · have hgoes := hlead.ne_endOfInput
      obtain ⟨-, w, x, hw, haccepted⟩ := hlead
      refine ⟨fun h => absurd h hgoes, fun _ => ⟨w, x, hw, ?_⟩⟩
      rwa [List.append_assoc]
    · exact ⟨fun _ => haccepted, fun h => absurd rfl h⟩

/-- A name that begins like a truth value, where a call was the last thing tried. -/
theorem syntaxError_tells_truth_truey :
    openBrackets (Bytes.ofString "a = truey") < 1000 ∧
      ∃ error, parse (Bytes.ofString "a = truey") = .error error ∧ error.position = ⟨1, 10⟩ ∧
        error.message = Bytes.ofString "expected \"(\", got end of input" ∧
        ∃ (o : Nat) (expected : List Expectation),
          error.position = Position.ofOffset (Bytes.ofString "a = truey") o ∧ expected ≠ [] ∧
          ∀ e ∈ expected,
            (e = .endOfInput → Accepted ((Bytes.ofString "a = truey").take o)) ∧
            (e ≠ .endOfInput → ∃ w x, e.Meets w ∧
              Accepted ((Bytes.ofString "a = truey").take o ++ w ++ x)) := by
  have hbrackets : openBrackets (Bytes.ofString "a = truey") < 1000 := by decide
  obtain ⟨error, herror, hposition, hmessage⟩ :
      ∃ error, parse (Bytes.ofString "a = truey") = .error error ∧ error.position = ⟨1, 10⟩ ∧
        error.message = Bytes.ofString "expected \"(\", got end of input" :=
    ⟨_, rfl, rfl, rfl⟩
  obtain ⟨o, expected, -, -, ho, -, hne, -, hlead⟩ := syntaxError_tells_truth hbrackets herror
  exact ⟨hbrackets, error, herror, hposition, hmessage, o, expected, ho, hne, hlead⟩

end Scriptlet
