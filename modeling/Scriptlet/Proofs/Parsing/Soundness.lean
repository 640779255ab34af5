import Scriptlet.Proofs.Parsing.Spelling
import Scriptlet.Script.Grammar

/-!
# What the grammar reads is well formed and spelled so

One direction of the exactness of the parser: whatever a rule of the grammar reads is a text that
spells the tree it returns, with the right marks, and the tree is well formed. Every rule is sound
for a relation of its own, and the relations are put together as the rules are.

The rules for expressions take the parser for what stands between brackets as an argument, and
are sound when it is; the depth goes down by one at each bracket, so soundness of expressions is
an induction on the depth. The only place where it matters which alternatives *failed* is a
variable: it is tried after the truth values, so its name does not begin like one.
-/

namespace Scriptlet

/-- **The text `t` spells the expression at the offset `o`**, and the expression is one that the
grammar builds at the level `lvl` with at most `d` brackets open at once. -/
structure Expr.StandsAt (lvl d o : Nat) (e : Expr Nat) (t : Bytes) : Prop where
  /-- The text spells the expression, and the marks are right. -/
  spells : e.SpellsAt o t
  /-- The grammar can build it. -/
  wellFormed : e.WellFormed
  /-- It binds at least as tightly as the level asks for. -/
  le_level : lvl ≤ e.level
  /-- It opens no more brackets than allowed. -/
  nesting_le : e.nesting ≤ d

/-- Several expressions between brackets that the grammar builds when `d` brackets may be
opened. -/
structure Expr.ItemsStandAt (d o : Nat) (es : List (Expr Nat)) (t : Bytes) : Prop where
  /-- The text spells the expressions, and the marks are right. -/
  spells : Expr.ItemsSpellAt o es t
  /-- The grammar can build them. -/
  wellFormed : Expr.AllWellFormed es
  /-- With the brackets around them they open no more brackets than allowed. -/
  nesting_lt : Expr.nestingList es < d

/-- A clause that the grammar builds, at an offset. -/
def Clause.StandsAt (o : Nat) (c : Clause Nat) (t : Bytes) : Prop :=
  c.SpellsAt o t ∧ c.WellFormed

/-- A statement that the grammar builds, at an offset. -/
def Stmt.StandsAt (o : Nat) (s : Stmt Nat) (t : Bytes) : Prop :=
  s.SpellsAt o t ∧ s.WellFormed

namespace Grammar

open Scriptlet.Parser

variable {α β : Type}

/-! ### Names and brackets -/

theorem sound_identifier : identifier.Sound fun _ name t => t = name ∧ IsName name :=
  (sound_run _ _).mono fun h => ⟨h.1, h.2⟩

/-- What follows an opening bracket is read by the parser for what is inside, if there is one. -/
theorem reads_enter_bind {inner? : Option (Parser α)} {f : Parser α → Parser β} {c c' : Cursor}
    {b : β} :
    (enter inner? >>= f).Reads c b c' ↔ ∃ inner, inner? = some inner ∧ (f inner).Reads c b c' := by
  rw [reads_bind]
  cases inner? with
  | none =>
    constructor
    · rintro ⟨a, c₁, h, -⟩
      exact absurd h (by simp [enter, fail, Reads])
    · rintro ⟨inner, h, -⟩
      exact absurd h (by simp)
  | some inner =>
    constructor
    · rintro ⟨a, c₁, h, hf⟩
      obtain ⟨rfl, rfl⟩ := reads_pure.1 h
      exact ⟨a, rfl, hf⟩
    · rintro ⟨a, h, hf⟩
      obtain rfl := Option.some.inj h
      exact ⟨inner, c, reads_pure.2 ⟨rfl, rfl⟩, hf⟩

/-- Behind a bracket it is enough to know what comes when something inside can be read. -/
theorem sound_enter_bind {inner? : Option (Parser α)} {f : Parser α → Parser β}
    {R : Nat → β → Bytes → Prop} (h : ∀ inner, inner? = some inner → (f inner).Sound R) :
    (enter inner? >>= f).Sound R := by
  intro o s b c' hr
  obtain ⟨inner, hi, hf⟩ := reads_enter_bind.1 hr
  exact h inner hi hf

/-- What may stand between brackets is sound when `d` brackets may be opened, the next one
included. -/
def InnerSound (d : Nat) (inner? : Option (Parser (Expr Nat))) : Prop :=
  ∀ inner, inner? = some inner → ∃ d', d = d' + 1 ∧ inner.Sound (Expr.StandsAt 0 d')

variable {d : Nat} {inner? : Option (Parser (Expr Nat))}

/-- Items between brackets open one bracket less than the whole. -/
theorem sound_list_of_innerSound {inner : Parser (Expr Nat)} (hi : InnerSound d inner?)
    (h : inner? = some inner) : (list inner).Sound (Expr.ItemsStandAt d) := by
  obtain ⟨d', rfl, hs⟩ := hi inner h
  refine hs.list.mono fun {o es t} hI => ⟨?_, ?_, ?_⟩
  · exact Expr.itemsSpellAt_iff.2 (hI.mono fun _ _ _ _ h => h.spells)
  · exact Expr.allWellFormed_iff.2 (hI.forall_mem fun h => h.wellFormed)
  · exact Nat.lt_succ_of_le
      (Expr.nestingList_le_iff.2 (hI.forall_mem fun h => h.nesting_le))

/-! ### Primaries -/

theorem sound_array (hi : InnerSound d inner?) :
    (array inner?).Sound fun o e t => e.StandsAt 4 d o t ∧ e.IsPrimary := by
  refine (sound_offset.bind fun mark => (sound_literal _).bind fun _ =>
    sound_enter_bind fun inner h => (sound_list_of_innerSound hi h).bind fun es =>
      (sound_literal _).bind fun _ => sound_pure (Expr.array mark es)).mono ?_
  rintro o e t ⟨mark, t₁, t₂, rfl, ⟨rfl, rfl⟩, -, t₃, t₄, rfl, rfl, es, t₅, t₆, rfl, hes, -, t₇,
    t₈, rfl, rfl, rfl, rfl⟩
  exact ⟨⟨⟨rfl, t₅, hes.spells, by simp⟩, hes.wellFormed, Nat.le_refl 4, hes.nesting_lt⟩, trivial⟩

theorem sound_bool : bool.Sound fun o e t => e.StandsAt 4 d o t ∧ e.IsPrimary := by
  have hone : ∀ (mark : Nat) (b : Bool),
      (do literal (Bytes.ofString (if b then "true" else "false")); pure (.bool mark b) :
        Parser (Expr Nat)).Sound fun _ e t =>
          ∃ b, e = .bool mark b ∧ t = Bytes.ofString (if b then "true" else "false") := by
    intro mark b
    refine ((sound_literal _).bind fun _ => sound_pure (Expr.bool mark b)).mono ?_
    rintro o e t ⟨-, t₁, t₂, rfl, rfl, rfl, rfl⟩
    exact ⟨b, rfl, by simp⟩
  refine (sound_offset.bind fun mark => (hone mark true).orElse (hone mark false)).mono ?_
  rintro o e t ⟨mark, t₁, t₂, rfl, ⟨rfl, rfl⟩, b, rfl, rfl⟩
  exact ⟨⟨⟨rfl, by simp⟩, trivial, Nat.le_refl 4, Nat.zero_le d⟩, trivial⟩

/-- A run of digits is read as the number that it denotes. -/
theorem sound_number : number.Sound fun o e t => e.StandsAt 4 d o t ∧ e.IsPrimary := by
  refine (sound_offset.bind fun mark => (sound_run _ _).bind fun digits =>
    sound_pure (Expr.number mark (Float.ofNat (Bytes.toNat digits)))).mono ?_
  rintro o e t ⟨mark, t₁, t₂, rfl, ⟨rfl, rfl⟩, digits, t₃, t₄, rfl, ⟨rfl, hne, hdigits⟩, rfl, rfl⟩
  refine ⟨⟨⟨rfl, ?_⟩, trivial, Nat.le_refl 4, Nat.zero_le d⟩, trivial⟩
  rw [List.nil_append, List.append_nil]
  exact ⟨hne, hdigits, rfl⟩

/-- A text goes up to the first quote, so there is none in it. -/
theorem sound_textBody : textBody.Sound fun _ value t =>
    t = value ++ [Bytes.doubleQuote] ∧ Bytes.doubleQuote ∉ value := by
  intro o s value c' h
  unfold Reads textBody at h
  rcases hc : Bytes.cut? Bytes.doubleQuote s with _ | ⟨before, rest⟩
  · simp [hc] at h
  · simp only [hc, Option.some.injEq, Prod.mk.injEq] at h
    obtain ⟨rfl, rfl⟩ := h
    obtain ⟨rfl, hmem⟩ := Bytes.cut?_eq_some_iff.1 hc
    refine ⟨before ++ [Bytes.doubleQuote], rest, by simp, ?_, rfl, hmem⟩
    rw [List.length_append, Nat.add_assoc]
    rfl

theorem sound_text : text.Sound fun o e t => e.StandsAt 4 d o t ∧ e.IsPrimary := by
  refine (sound_offset.bind fun mark => (sound_literal _).bind fun _ =>
    sound_textBody.bind fun value => sound_pure (Expr.text mark value)).mono ?_
  rintro o e t ⟨mark, t₁, t₂, rfl, ⟨rfl, rfl⟩, -, t₃, t₄, rfl, rfl, value, t₅, t₆, rfl,
    ⟨rfl, hmem⟩, rfl, rfl⟩
  exact ⟨⟨⟨rfl, by simp⟩, hmem, Nat.le_refl 4, Nat.zero_le d⟩, trivial⟩

theorem sound_var : var.Sound fun o e t => ∃ name, e = .var o name ∧ t = name ∧ IsName name := by
  refine (sound_offset.bind fun mark => sound_identifier.bind fun name =>
    sound_pure (Expr.var mark name)).mono ?_
  rintro o e t ⟨mark, t₁, t₂, rfl, ⟨rfl, rfl⟩, name, t₃, t₄, rfl, ⟨rfl, hname⟩, rfl, rfl⟩
  exact ⟨t₃, rfl, by simp, hname⟩

/-- Where no truth value can be read, no name begins like one. -/
theorem not_beginsWith_of_refuses_bool {o : Nat} {name r : Bytes}
    (h : bool.Refuses ⟨o, name ++ r⟩) :
    Bytes.beginsWith name (Bytes.ofString "true") = false ∧
      Bytes.beginsWith name (Bytes.ofString "false") = false := by
  have hno : ∀ word : Bytes, (literal word).Refuses ⟨o, name ++ r⟩ →
      Bytes.beginsWith name word = false := by
    intro word hw
    rw [← Bool.not_eq_true, Bytes.beginsWith_eq_true_iff]
    rintro ⟨x, rfl⟩
    rw [List.append_assoc] at hw
    exact not_refuses_of_reads (takes_literal word o (x ++ r)) hw
  rw [bool, refuses_offset_bind, refuses_orElse, refuses_map, refuses_map] at h
  exact ⟨hno _ h.1, hno _ h.2⟩

/-- **Primaries are sound.** A variable is the last alternative, and so no truth value was
found in its place. -/
theorem sound_primary (hi : InnerSound d inner?) :
    (primary inner?).Sound fun o e t => e.StandsAt 4 d o t ∧ e.IsPrimary := by
  intro o s e c' h
  rcases reads_orElse.1 h with h | ⟨-, h⟩
  · exact sound_array hi h
  · rcases reads_orElse.1 h with h | ⟨hbool, h⟩
    · exact sound_bool h
    · rcases reads_orElse.1 h with h | ⟨-, h⟩
      · exact sound_number h
      · rcases reads_orElse.1 h with h | ⟨-, h⟩
        · exact sound_text h
        · obtain ⟨t, r, rfl, rfl, name, rfl, rfl, hname⟩ := sound_var h
          obtain ⟨htrue, hfalse⟩ := not_beginsWith_of_refuses_bool hbool
          exact ⟨t, r, rfl, rfl,
            ⟨⟨rfl, rfl⟩, ⟨hname, htrue, hfalse⟩, Nat.le_refl 4, Nat.zero_le d⟩, trivial⟩

/-! ### Postfix forms -/

theorem sound_arguments (hi : InnerSound d inner?) :
    (arguments inner?).Sound fun o args t =>
      ∃ u, Expr.ItemsStandAt d (o + 1) args u ∧
        t = Bytes.ofString "(" ++ (u ++ Bytes.ofString ")") := by
  refine ((sound_literal _).bind fun _ => sound_enter_bind fun inner h =>
    (sound_list_of_innerSound hi h).bind fun args =>
      (sound_literal _).bind fun _ => sound_pure args).mono ?_
  rintro o args t ⟨-, t₁, t₂, rfl, rfl, es, t₃, t₄, rfl, hes, -, t₅, t₆, rfl, rfl, rfl, rfl⟩
  exact ⟨t₃, hes, by simp⟩

/-- After a dot comes a name, and with arguments behind it the name of a method. -/
theorem sound_access (hi : InnerSound d inner?) (mark : Nat) (object : Expr Nat) :
    (access inner? mark object).Sound fun o e t =>
      (∃ name, IsName name ∧ e = .member mark object name ∧ t = Bytes.ofString "." ++ name) ∨
        ∃ name args v, IsName name ∧ Expr.ItemsStandAt d (o + 1 + name.length + 1) args v ∧
          e = .method mark object name args ∧ t = Bytes.ofString "." ++
            (name ++ (Bytes.ofString "(" ++ (v ++ Bytes.ofString ")"))) := by
  refine ((sound_literal _).bind fun _ => sound_identifier.bind fun name => Sound.orElse
    (((sound_arguments hi).bind fun args =>
      sound_pure (Expr.method mark object name args)).mono Or.inl)
    ((sound_pure (Expr.member mark object name)).mono Or.inr)).mono ?_
  rintro o e t ⟨-, t₁, t₂, rfl, rfl, name, t₃, t₄, rfl, ⟨rfl, hname⟩,
    ⟨args, t₅, t₆, rfl, ⟨u, hu, rfl⟩, rfl, rfl⟩ | ⟨rfl, rfl⟩⟩
  · exact Or.inr ⟨t₃, args, u, hname, hu, rfl, by simp⟩
  · exact Or.inl ⟨t₃, hname, rfl, by simp⟩

/-- An index counts as a bracket. -/
theorem sound_index (hi : InnerSound d inner?) (mark : Nat) (object : Expr Nat) :
    (index inner? mark object).Sound fun o e t =>
      ∃ place v d', d = d' + 1 ∧ place.StandsAt 0 d' (o + 1) v ∧ e = .index mark object place ∧
        t = Bytes.ofString "[" ++ (v ++ Bytes.ofString "]") := by
  refine ((sound_literal _).bind fun _ => sound_enter_bind (R := fun o e t =>
    ∃ place v d', d = d' + 1 ∧ place.StandsAt 0 d' o v ∧ e = .index mark object place ∧
      t = v ++ Bytes.ofString "]") fun inner h => ?_).mono ?_
  · obtain ⟨d', hd, hs⟩ := hi inner h
    refine (hs.bind fun place => (sound_literal _).bind fun _ =>
      sound_pure (Expr.index mark object place)).mono ?_
    rintro o e t ⟨place, t₁, t₂, rfl, hp, -, t₃, t₄, rfl, rfl, rfl, rfl⟩
    exact ⟨place, t₁, d', hd, hp, rfl, by simp⟩
  · rintro o e t ⟨-, t₁, t₂, rfl, rfl, place, v, d', hd, hp, rfl, rfl⟩
    exact ⟨place, v, d', hd, hp, rfl, rfl⟩

/-- A call is a name with arguments, marked at the name. -/
theorem sound_call (hi : InnerSound d inner?) (mark : Nat) :
    (call inner? mark).Sound fun o e t =>
      ∃ name args u, IsName name ∧ Expr.ItemsStandAt d (o + name.length + 1) args u ∧
        e = .call mark name args ∧
        t = name ++ (Bytes.ofString "(" ++ (u ++ Bytes.ofString ")")) := by
  refine (sound_identifier.bind fun name => (sound_arguments hi).bind fun args =>
    sound_pure (Expr.call mark name args)).mono ?_
  rintro o e t ⟨name, t₁, t₂, rfl, ⟨rfl, hname⟩, args, t₃, t₄, rfl, ⟨u, hu, rfl⟩, rfl, rfl⟩
  exact ⟨t₁, args, u, hname, hu, rfl, by simp⟩

/-- **Operands are sound**: a primary, a primary with one postfix form, or a call. -/
theorem sound_operand (hi : InnerSound d inner?) :
    (operand inner?).Sound (Expr.StandsAt 4 d) := by
  intro o s e c' h
  obtain ⟨object, c₁, hobject, h⟩ := reads_bind.1 h
  -- whatever it turns out to be, a primary was read first
  obtain ⟨t₁, r₁, rfl, rfl, ho, hprim⟩ := sound_primary hi hobject
  rcases reads_orElse.1 h with h | ⟨-, h⟩
  · obtain ⟨t₂, r₂, rfl, rfl, ⟨name, hname, rfl, rfl⟩ | ⟨name, args, v, hname, hv, rfl, rfl⟩⟩ :=
      sound_access hi o object h
    · exact ⟨_, r₂, by simp, by simp [Nat.add_assoc], ⟨rfl, t₁, ho.spells, rfl⟩,
        ⟨hprim, ho.wellFormed, hname⟩, Nat.le_refl 4, ho.nesting_le⟩
    · exact ⟨_, r₂, by simp, by simp [Nat.add_assoc], ⟨rfl, t₁, v, ho.spells, hv.spells, rfl⟩,
        ⟨hprim, ho.wellFormed, hname, hv.wellFormed⟩, Nat.le_refl 4,
        Nat.max_le.2 ⟨ho.nesting_le, hv.nesting_lt⟩⟩
  rcases reads_orElse.1 h with h | ⟨-, h⟩
  · obtain ⟨t₂, r₂, rfl, rfl, place, v, d', rfl, hp, rfl, rfl⟩ := sound_index hi o object h
    exact ⟨_, r₂, by simp, by simp [Nat.add_assoc], ⟨rfl, t₁, v, ho.spells, hp.spells, rfl⟩,
      ⟨hprim, ho.wellFormed, hp.wellFormed⟩, Nat.le_refl 4,
      Nat.max_le.2 ⟨ho.nesting_le, Nat.succ_le_succ hp.nesting_le⟩⟩
  rcases reads_orElse.1 h with h | ⟨-, h⟩
  · -- the call begins where the primary did
    obtain ⟨t₂, r₂, hs, rfl, name, args, u, hname, hu, rfl, rfl⟩ := sound_call hi o h
    exact ⟨_, r₂, hs, rfl, ⟨rfl, u, hu.spells, rfl⟩, ⟨hname, hu.wellFormed⟩, Nat.le_refl 4,
      hu.nesting_lt⟩
  · obtain ⟨rfl, rfl⟩ := reads_pure.1 h
    exact ⟨t₁, r₁, rfl, rfl, ho⟩

/-! ### Binary expressions -/

/-- The node of an operator is marked at it, behind the blank. -/
theorem sound_rightOperand {lvl : Nat} {next : Parser (Expr Nat)}
    (hn : next.Sound (Expr.StandsAt (lvl + 1) d)) {op : Operator} (hop : op.level = lvl)
    (left : Expr Nat) :
    (rightOperand next op left).Sound fun o e t =>
      ∃ op right v, op.level = lvl ∧ right.StandsAt (lvl + 1) d (o + op.spaced.length) v ∧
        e = .binary (o + 1) op left right ∧ t = op.spaced ++ v := by
  refine (sound_offset.bind fun mark => (sound_literal _).bind fun _ => hn.bind fun right =>
    sound_pure (Expr.binary (mark + 1) op left right)).mono ?_
  rintro o e t ⟨mark, t₁, t₂, rfl, ⟨rfl, rfl⟩, -, t₃, t₄, rfl, rfl, right, t₅, t₆, rfl, hr, rfl,
    rfl⟩
  exact ⟨op, right, t₅, hop, hr, rfl, by simp [Operator.spaced]⟩

/-- **A level of binary operators is sound** when the next tighter one is. -/
theorem sound_level {lvl : Nat} {next : Parser (Expr Nat)}
    (hn : next.Sound (Expr.StandsAt (lvl + 1) d)) {op op' : Operator} (hop : op.level = lvl)
    (hop' : op'.level = lvl) : (level op op' next).Sound (Expr.StandsAt lvl d) := by
  intro o s e c' h
  obtain ⟨left, c₁, hleft, h⟩ := reads_bind.1 h
  obtain ⟨t₁, r₁, rfl, rfl, hl⟩ := hn hleft
  have hbinary : ∀ {e c'}, (rightOperand next op left <|> rightOperand next op' left).Reads
      ⟨o + t₁.length, r₁⟩ e c' → ∃ t r, t₁ ++ r₁ = t ++ r ∧ c' = ⟨o + t.length, r⟩ ∧
        e.StandsAt lvl d o t := by
    intro e c' h
    obtain ⟨t₂, r₂, rfl, rfl, op, right, v, hop, hr, rfl, rfl⟩ :=
      (sound_rightOperand hn hop left).orElse (sound_rightOperand hn hop' left) h
    refine ⟨_, r₂, (List.append_assoc _ _ _).symm, by simp [Nat.add_assoc],
      ⟨t₁, v, hl.spells, rfl, hr.spells, rfl⟩, ?_, ?_, Nat.max_le.2 ⟨hl.nesting_le, hr.nesting_le⟩⟩
    · have hlevel := hl.le_level
      have hlevel' := hr.le_level
      exact ⟨by omega, by omega, hl.wellFormed, hr.wellFormed⟩
    · exact Nat.le_of_eq hop.symm
  -- either operator of the level, or none
  rcases reads_orElse.1 h with h | ⟨hno, h⟩
  · exact hbinary (reads_orElse.2 (Or.inl h))
  rcases reads_orElse.1 h with h | ⟨-, h⟩
  · exact hbinary (reads_orElse.2 (Or.inr ⟨hno, h⟩))
  · obtain ⟨rfl, rfl⟩ := reads_pure.1 h
    exact ⟨t₁, r₁, rfl, rfl, hl.spells, hl.wellFormed, Nat.le_of_succ_le hl.le_level, hl.nesting_le⟩

theorem sound_expressionWith (hi : InnerSound d inner?) :
    (expressionWith inner?).Sound (Expr.StandsAt 0 d) :=
  sound_level (sound_level (sound_level (sound_level (sound_operand hi) rfl rfl) rfl rfl) rfl rfl)
    rfl rfl

theorem expressionAt_zero : expressionAt 0 = expressionWith none := by
  funext c
  rw [expressionAt]

theorem expressionAt_succ (d : Nat) :
    expressionAt (d + 1) = expressionWith (some (expressionAt d)) := by
  funext c
  rw [expressionAt]

/-- **Expressions are sound**, by induction on the number of brackets that may be opened. -/
theorem sound_expressionAt (d : Nat) : (expressionAt d).Sound (Expr.StandsAt 0 d) := by
  induction d with
  | zero =>
    rw [expressionAt_zero]
    exact sound_expressionWith fun inner h => absurd h (by simp)
  | succ d ih =>
    rw [expressionAt_succ]
    refine sound_expressionWith fun inner h => ⟨d, rfl, ?_⟩
    obtain rfl := Option.some.inj h
    exact ih

/-! ### Statements -/

theorem sound_expression : expression.Sound (Expr.StandsAt 0 1000) :=
  sound_expressionAt maxNesting

theorem sound_ret : ret.Sound Clause.StandsAt := by
  refine (sound_offset.bind fun mark => (sound_literal _).bind fun _ => sound_expression.bind
    fun value => sound_pure (Clause.ret mark value)).mono ?_
  rintro o c t ⟨mark, t₁, t₂, rfl, ⟨rfl, rfl⟩, -, t₃, t₄, rfl, rfl, value, t₅, t₆, rfl, hv, rfl,
    rfl⟩
  exact ⟨⟨rfl, t₅, hv.spells, by simp⟩, hv.wellFormed, hv.nesting_le⟩

theorem sound_assign : assign.Sound Clause.StandsAt := by
  refine (sound_offset.bind fun mark => sound_identifier.bind fun name =>
    (sound_literal _).bind fun _ => sound_expression.bind fun value =>
      sound_pure (Clause.assign mark name value)).mono ?_
  rintro o c t ⟨mark, t₁, t₂, rfl, ⟨rfl, rfl⟩, name, t₃, t₄, rfl, ⟨rfl, hname⟩, -, t₅, t₆, rfl, rfl,
    value, t₇, t₈, rfl, hv, rfl, rfl⟩
  exact ⟨⟨rfl, t₇, hv.spells, by simp⟩, hname, hv.wellFormed, hv.nesting_le⟩

theorem sound_clause : clause.Sound Clause.StandsAt :=
  sound_ret.orElse sound_assign

theorem sound_body : body.Sound fun o cs t =>
    Clause.BodySpellsAt o cs t ∧ ∀ c ∈ cs, c.WellFormed := by
  refine ((sound_after _ sound_clause).many).mono fun {o cs t} hE => ⟨?_, ?_⟩
  · exact hE.mono fun _ _ _ _ hA => hA.mono fun _ _ h => h.1
  · exact hE.forall_mem fun {o c t} ⟨u, _, h⟩ => h.2

theorem sound_params : (list identifier).Sound fun _ params t =>
    t = Bytes.join (Bytes.ofString ", ") params ∧ ∀ p ∈ params, IsName p := by
  refine sound_identifier.list.mono fun {o params t} hI => ⟨?_, hI.forall_mem fun h => h.2⟩
  obtain ⟨us, hus, rfl⟩ := forall₂_of_itemsAt (f := id) (Q := fun name t => name = t) hI
    fun _ _ {o t} h => h.1.symm
  rw [List.map_id, List.forall₂_eq_eq_eq] at hus
  rw [hus]

/-- A definition is its head and its body. Its mark is at the keyword. -/
theorem sound_func : func.Sound Stmt.StandsAt := by
  refine (sound_offset.bind fun mark => (sound_literal _).bind fun _ => sound_identifier.bind
    fun name => (sound_literal _).bind fun _ => sound_params.bind fun params =>
      (sound_literal _).bind fun _ => sound_body.bind fun clauses =>
        sound_pure (Stmt.func name ⟨mark, params, clauses⟩)).mono ?_
  -- the keyword, the name, the opening bracket, the parameters, the closing bracket, the body
  rintro o s t ⟨mark, t₁, t₂, rfl, ⟨rfl, rfl⟩, -, t₃, t₄, rfl, rfl, name, t₅, t₆, rfl,
    ⟨rfl, hname⟩, -, t₇, t₈, rfl, rfl, params, t₉, t₁₀, rfl, ⟨rfl, hparams⟩, -, t₁₁, t₁₂, rfl, rfl,
    clauses, t₁₃, t₁₄, rfl, ⟨hbody, hclauses⟩, rfl, rfl⟩
  refine ⟨⟨rfl, _, t₁₃, rfl, ?_, by simp⟩, hname, hparams, hclauses⟩
  simpa [Nat.add_assoc] using hbody

/-- A keyword, a condition and a body: the common form of conditionals and loops. -/
theorem sound_block (word : Bytes) (g : Nat → Expr Nat → List (Clause Nat) → Stmt Nat) :
    (do let mark ← offset; literal word; let e ← expression; let cs ← body; pure (g mark e cs) :
      Parser (Stmt Nat)).Sound fun o s t => ∃ condition clauses u v,
        condition.StandsAt 0 1000 (o + word.length) u ∧
        Clause.BodySpellsAt (o + word.length + u.length) clauses v ∧
        (∀ c ∈ clauses, c.WellFormed) ∧ s = g o condition clauses ∧ t = word ++ (u ++ v) := by
  refine (sound_offset.bind fun mark => (sound_literal _).bind fun _ => sound_expression.bind
    fun condition => sound_body.bind fun clauses =>
      sound_pure (g mark condition clauses)).mono ?_
  rintro o s t ⟨mark, t₁, t₂, rfl, ⟨rfl, rfl⟩, -, t₃, t₄, rfl, rfl, condition, t₅, t₆, rfl, hc,
    clauses, t₇, t₈, rfl, ⟨hbody, hclauses⟩, rfl, rfl⟩
  exact ⟨condition, clauses, t₅, t₇, hc, hbody, hclauses, rfl, by simp⟩

theorem sound_loop : loop.Sound Stmt.StandsAt := by
  refine (sound_block _ Stmt.loop).mono ?_
  rintro o s t ⟨condition, clauses, u, v, hc, hbody, hclauses, rfl, rfl⟩
  exact ⟨⟨rfl, u, v, hc.spells, hbody, rfl⟩, hc.wellFormed, hc.nesting_le, hclauses⟩

theorem sound_cond : cond.Sound Stmt.StandsAt := by
  refine (sound_block _ Stmt.cond).mono ?_
  rintro o s t ⟨condition, clauses, u, v, hc, hbody, hclauses, rfl, rfl⟩
  exact ⟨⟨rfl, u, v, hc.spells, hbody, rfl⟩, hc.wellFormed, hc.nesting_le, hclauses⟩

/-- **Statements are sound.** -/
theorem sound_statement : statement.Sound Stmt.StandsAt := by
  refine sound_func.orElse (sound_loop.orElse (sound_cond.orElse ?_))
  refine (sound_clause.bind fun c => sound_pure (Stmt.clause c)).mono ?_
  rintro o s t ⟨c, t₁, t₂, rfl, hc, rfl, rfl⟩
  rw [List.append_nil]
  exact hc

theorem eq_nil_of_reads_endOfInput {o : Nat} {s : Bytes} {u : Unit} {c' : Cursor}
    (h : endOfInput.Reads ⟨o, s⟩ u c') : s = [] := by
  cases s with
  | nil => rfl
  | cons b s => exact absurd h (by simp [Reads, endOfInput])

/-- **Scripts are sound**: the text is all that is left of the source. -/
theorem itemsAt_of_reads_script {o : Nat} {s : Bytes} {ss : List (Stmt Nat)} {c' : Cursor}
    (h : script.Reads ⟨o, s⟩ ss c') :
    ss ≠ [] ∧ ItemsAt (Bytes.ofString "\n") Stmt.StandsAt o ss s := by
  obtain ⟨first, c₁, hfirst, h⟩ := reads_bind.1 h
  obtain ⟨t₁, r₁, rfl, rfl, hf⟩ := sound_statement hfirst
  obtain ⟨others, c₂, hothers, h⟩ := reads_bind.1 h
  obtain ⟨t₂, r₂, rfl, rfl, ho⟩ := (sound_after _ sound_statement).many hothers
  obtain ⟨u, c₃, hend, h⟩ := reads_bind.1 h
  obtain rfl := eq_nil_of_reads_endOfInput hend
  obtain ⟨rfl, rfl⟩ := reads_pure.1 h
  exact ⟨by simp, t₁, t₂, by simp, hf, ho⟩

end Grammar

/-- A source is read as statements when the rule for scripts reads them from its beginning. -/
theorem parseMarked_eq_ok_iff {s : Bytes} {ss : List (Stmt Nat)} :
    parseMarked s = .ok ss ↔ ∃ c', Grammar.script.Reads ⟨0, s⟩ ss c' := by
  unfold parseMarked Parser.Reads Cursor.start
  rcases Grammar.script ⟨0, s⟩ with ⟨_ | ⟨ss', c'⟩, m⟩
  · simp
  · simp [eq_comm]

/-- A source is parsed to the statements that it is read as, marked with positions. -/
theorem parse_eq_ok_iff {s : Bytes} {script : Script} :
    parse s = .ok script ↔ ∃ ss, parseMarked s = .ok ss ∧
      script = ⟨s, ss.map (Stmt.map (Position.ofOffset s))⟩ := by
  have hlookUp : Position.lookUp (Position.ofOffsets s) = Position.ofOffset s :=
    funext (Position.lookUp_ofOffsets s)
  unfold parse
  cases parseMarked s with
  | error missed => simp
  | ok ss => simp [hlookUp, eq_comm]

/-- **The parser is sound**: what it reads is spelled by the whole source, with the right
marks, and is well formed. -/
theorem parseMarked_sound {s : Bytes} {ss : List (Stmt Nat)} (h : parseMarked s = .ok ss) :
    Script.SpellsAt 0 ss s ∧ Script.WellFormed ss := by
  obtain ⟨c', hr⟩ := parseMarked_eq_ok_iff.1 h
  obtain ⟨hne, hI⟩ := Grammar.itemsAt_of_reads_script hr
  exact ⟨hI.mono fun _ _ _ _ h => h.1, hne, hI.forall_mem fun h => h.2⟩

end Scriptlet
