import Scriptlet.Proofs.Parsing.Soundness

/-!
# Every spelling of a well-formed tree is read

The other direction of the exactness of the parser. An ordered choice may fail to read a text that
one of its alternatives would read: an earlier alternative may succeed first, with less, or with
something else. So completeness is a statement about **what follows** a text. `Closes` is what
follows a whole expression: the end of the source, a comma, a closing bracket or a line feed.
`Follows` adds, for the operands of a level, the operators of looser levels. `StatementEnds` is
what follows a statement.

Under these conditions every rule takes the text of its tree and stops right behind it:

* a run of letters or digits stops, because nothing that may follow continues it;
* a primary is not taken for the object of a postfix form, because none of `.`, `[` and `(`
  may follow it;
* a call is reached although its name reads as a primary first, or begins like a truth value,
  because what is left then begins with a letter or a parenthesis;
* an assignment to a name such as `if` is reached although a statement was begun in its place,
  because after the keyword comes `=`, and no name and no expression begins with that.
-/

namespace Scriptlet

namespace Grammar

open Scriptlet.Parser

variable {d lvl o : Nat} {inner? : Option (Parser (Expr Nat))}

/-! ### What may follow -/

/-- A text that begins with a byte has that byte ahead, and no other. -/
theorem forall_head?_cons {P : UInt8 → Prop} {b : UInt8} (h : P b) (s : Bytes) :
    ∀ b' ∈ (b :: s).head?, P b' := by
  intro b' hb'
  obtain rfl := Option.some.inj hb'
  exact h

/-- What follows an expression: nothing, a comma, a closing bracket or a line feed. -/
def Closes (r : Bytes) : Prop :=
  ∀ b ∈ r.head?, b ∈ Bytes.ofString ",)]\n"

/-- What follows an operand of the level `lvl`: what follows an expression, or an operator that
binds less tightly. -/
def Follows (lvl : Nat) (r : Bytes) : Prop :=
  Closes r ∨ ∃ (op : Operator) (x : Bytes), op.level < lvl ∧ r = op.spaced ++ x

/-- What ends a name or a number, seen from its first byte. -/
def Ends (r : Bytes) : Prop :=
  ∀ b ∈ r.head?, b ∈ Bytes.ofString " ,)]\n"

/-- What closes an expression ends a name or a number in it. -/
theorem Closes.ends {r : Bytes} (h : Closes r) : Ends r := by
  intro b hb
  exact List.mem_cons_of_mem _ (h b hb)

/-- What follows an operand ends a name or a number at its end: operators begin with a blank. -/
theorem Follows.ends {r : Bytes} (h : Follows lvl r) : Ends r := by
  rcases h with h | ⟨op, x, -, rfl⟩
  · exact h.ends
  · exact forall_head?_cons (b := Bytes.space) List.mem_cons_self _

/-- What follows at a looser level follows at every tighter one. -/
theorem Follows.mono {lvl' : Nat} {r : Bytes} (hl : lvl ≤ lvl') (h : Follows lvl r) :
    Follows lvl' r := by
  rcases h with h | ⟨op, x, hop, rfl⟩
  · exact Or.inl h
  · exact Or.inr ⟨op, x, Nat.lt_of_lt_of_le hop hl, rfl⟩

theorem Ends.not_isNameByte {r : Bytes} (h : Ends r) :
    ∀ b ∈ r.head?, Bytes.isNameByte b = false := by
  intro b hb
  exact (by decide +kernel : ∀ b ∈ Bytes.ofString " ,)]\n", Bytes.isNameByte b = false) b (h b hb)

theorem Ends.not_isDigit {r : Bytes} (h : Ends r) : ∀ b ∈ r.head?, Bytes.isDigit b = false := by
  intro b hb
  exact (by decide +kernel : ∀ b ∈ Bytes.ofString " ,)]\n", Bytes.isDigit b = false) b (h b hb)

/-- What ends a name is none of the bytes by which a rule would go on. -/
theorem Ends.ne {r : Bytes} (h : Ends r) {b : UInt8} (hb : b ∉ Bytes.ofString " ,)]\n") :
    ∀ b' ∈ r.head?, b' ≠ b := by
  rintro b' hb' rfl
  exact hb (h b' hb')

/-! ### Where rules refuse -/

/-- No byte is both a letter and a digit, so the first byte tells names from numbers. -/
theorem not_isDigit_of_isNameByte {b : UInt8} (h : Bytes.isNameByte b = true) :
    Bytes.isDigit b = false := by
  simp only [Bytes.isNameByte, Bytes.isDigit, Bool.or_eq_true, Bool.and_eq_true, decide_eq_true_eq,
    beq_iff_eq, Bool.and_eq_false_iff, decide_eq_false_iff_not, UInt8.le_iff_toNat_le] at *
  rcases h with h | rfl
  · have h61 : (0x61 : UInt8).toNat = 0x61 := rfl
    have h39 : (0x39 : UInt8).toNat = 0x39 := rfl
    omega
  · decide

theorem not_isNameByte_of_isDigit {b : UInt8} (h : Bytes.isDigit b = true) :
    Bytes.isNameByte b = false := by
  rw [← Bool.not_eq_true]
  intro hname
  rw [not_isDigit_of_isNameByte hname] at h
  cases h

/-- A word at the beginning of a name and what follows it is at the beginning of the name. -/
theorem exists_append_of_name {word name r x : Bytes} (hw : ∀ b ∈ word, Bytes.isNameByte b = true)
    (hr : ∀ b ∈ r.head?, Bytes.isNameByte b = false) (h : name ++ r = word ++ x) :
    ∃ y, name = word ++ y ∧ x = y ++ r := by
  rcases List.append_eq_append_iff.1 h with ⟨y, rfl, rfl⟩ | ⟨y, rfl, rfl⟩
  · -- the word reaches beyond the name, where no letter stands
    cases y with
    | nil => exact ⟨[], by simp, rfl⟩
    | cons b y => exact absurd (hr b rfl) (by rw [hw b (by simp)]; simp)
  · exact ⟨y, rfl, rfl⟩

/-- A keyword is not read off a name that does not begin with it, since the name ends before the
keyword could go on. -/
theorem refuses_literal_of_not_beginsWith {word name r : Bytes}
    (hw : ∀ b ∈ word, Bytes.isNameByte b = true) (hname : Bytes.beginsWith name word = false)
    (hr : ∀ b ∈ r.head?, Bytes.isNameByte b = false) : (literal word).Refuses ⟨o, name ++ r⟩ := by
  rw [refuses_literal]
  rcases ha : Bytes.after? word (name ++ r) with _ | x
  · rfl
  · obtain ⟨y, rfl, -⟩ := exists_append_of_name hw hr (Bytes.after?_eq_some_iff.1 ha)
    rw [Bytes.beginsWith_eq_true_iff.2 ⟨y, rfl⟩] at hname
    exact absurd hname (by simp)

theorem refuses_array {s : Bytes} (h : ∀ b ∈ s.head?, b ≠ 0x5b) :
    (array inner?).Refuses ⟨o, s⟩ := by
  rw [array, refuses_offset_bind, refuses_bind]
  exact Or.inl (refuses_literal_of_head (b := 0x5b) rfl h)

/-- A name that begins with neither truth value is not read as one. -/
theorem refuses_bool {name r : Bytes}
    (htrue : Bytes.beginsWith name (Bytes.ofString "true") = false)
    (hfalse : Bytes.beginsWith name (Bytes.ofString "false") = false)
    (hr : ∀ b ∈ r.head?, Bytes.isNameByte b = false) : bool.Refuses ⟨o, name ++ r⟩ := by
  rw [bool, refuses_offset_bind, refuses_orElse, refuses_map, refuses_map]
  exact ⟨refuses_literal_of_not_beginsWith (by decide +kernel) htrue hr,
    refuses_literal_of_not_beginsWith (by decide +kernel) hfalse hr⟩

theorem refuses_bool_of_head {s : Bytes} (h : ∀ b ∈ s.head?, Bytes.isNameByte b = false) :
    bool.Refuses ⟨o, s⟩ := by
  have hnil : bool.Refuses ⟨o, [] ++ s⟩ := refuses_bool rfl rfl h
  exact hnil

theorem refuses_number {s : Bytes} (h : ∀ b ∈ s.head?, Bytes.isDigit b = false) :
    number.Refuses ⟨o, s⟩ := by
  rw [number, refuses_offset_bind, refuses_map]
  exact refuses_run h

theorem refuses_text {s : Bytes} (h : ∀ b ∈ s.head?, b ≠ Bytes.doubleQuote) :
    text.Refuses ⟨o, s⟩ := by
  rw [text, refuses_offset_bind, refuses_bind]
  exact Or.inl (refuses_literal_of_head rfl h)

/-- Where nothing can begin: neither a bracket, a quote, a digit nor a letter is ahead. -/
def BeginsNothing (s : Bytes) : Prop :=
  ∀ b ∈ s.head?, b ≠ 0x5b ∧ b ≠ Bytes.doubleQuote ∧ Bytes.isDigit b = false ∧
    Bytes.isNameByte b = false

/-- Nothing is read where nothing begins. -/
theorem refuses_primary {s : Bytes} (h : BeginsNothing s) : (primary inner?).Refuses ⟨o, s⟩ := by
  have hname : ∀ b ∈ s.head?, Bytes.isNameByte b = false := fun b hb => (h b hb).2.2.2
  refine refuses_orElse.2 ⟨refuses_array fun b hb => (h b hb).1, refuses_orElse.2
    ⟨refuses_bool_of_head hname, refuses_orElse.2 ⟨refuses_number fun b hb => (h b hb).2.2.1,
      refuses_orElse.2 ⟨refuses_text fun b hb => (h b hb).2.1, ?_⟩⟩⟩⟩
  rw [var, refuses_offset_bind, refuses_map]
  exact refuses_run hname

/-- **No expression is read where nothing can begin.** -/
theorem refuses_expressionAt {s : Bytes} (h : BeginsNothing s) (d : Nat) :
    (expressionAt d).Refuses ⟨o, s⟩ := by
  have hwith : ∀ inner?, (expressionWith inner?).Refuses ⟨o, s⟩ := by
    intro inner?
    have hoperand : (operand inner?).Refuses ⟨o, s⟩ :=
      refuses_bind.2 (Or.inl (refuses_primary h))
    -- every level begins with the next tighter one, down to the operand
    have hlevel : ∀ {op op' next}, Parser.Refuses next ⟨o, s⟩ →
        (level op op' next).Refuses ⟨o, s⟩ := fun hn => refuses_bind.2 (Or.inl hn)
    exact hlevel (hlevel (hlevel (hlevel hoperand)))
  cases d with
  | zero =>
    rw [expressionAt_zero]
    exact hwith none
  | succ d =>
    rw [expressionAt_succ]
    exact hwith _

/-! ### Between brackets -/

/-- **A parser for expressions is complete** at a level: it takes the text of an expression of that
level, whatever may follow it. -/
def Complete (lvl d : Nat) (p : Parser (Expr Nat)) : Prop :=
  ∀ ⦃o : Nat⦄ ⦃e : Expr Nat⦄ ⦃t r : Bytes⦄, e.StandsAt lvl d o t → Follows lvl r → p.Takes o t r e

/-- What may stand between brackets is complete when `d` brackets may be opened, the next one
included. -/
def InnerComplete (d : Nat) (inner? : Option (Parser (Expr Nat))) : Prop :=
  ∀ d', d = d' + 1 → ∃ inner, inner? = some inner ∧ Complete 0 d' inner ∧
    ∀ {o s}, BeginsNothing s → inner.Refuses ⟨o, s⟩

theorem takes_enter_bind {α β : Type} {inner? : Option (Parser α)} {inner : Parser α}
    {f : Parser α → Parser β} {t r : Bytes} {b : β} (hi : inner? = some inner)
    (h : (f inner).Takes o t r b) : (enter inner? >>= f).Takes o t r b :=
  reads_enter_bind.2 ⟨inner, hi, h⟩

/-- Items between brackets are taken up to the closing bracket. -/
theorem exists_takes_list (hi : InnerComplete d inner?) {es : List (Expr Nat)} {t r : Bytes}
    (h : Expr.ItemsStandAt d o es t) (hr : ∃ b s, r = b :: s ∧ b ∈ Bytes.ofString ")]") :
    ∃ inner, inner? = some inner ∧ (list inner).Takes o t r es := by
  obtain ⟨b, s, rfl, hb⟩ := hr
  -- the bracket around the items is one of the `d`, so there is something to stand between
  have hd : d = (d - 1) + 1 := by
    have := h.nesting_lt
    omega
  obtain ⟨inner, hinner, hcomplete, hrefuses⟩ := hi (d - 1) hd
  have hcloses : Closes (b :: s) := forall_head?_cons
    ((by decide +kernel : ∀ b ∈ Bytes.ofString ")]", b ∈ Bytes.ofString ",)]\n") b hb) s
  have hcomma : b ≠ 0x2c := (by decide +kernel : ∀ b ∈ Bytes.ofString ")]", b ≠ 0x2c) b hb
  have hnothing : BeginsNothing (b :: s) := forall_head?_cons
    ((by decide +kernel : ∀ b ∈ Bytes.ofString ")]", b ≠ 0x5b ∧ b ≠ Bytes.doubleQuote ∧
      Bytes.isDigit b = false ∧ Bytes.isNameByte b = false) b hb) s
  refine ⟨inner, hinner, takes_list (F := Closes) ?_ hcloses ?_ (fun o => hrefuses hnothing) ?_
    (Expr.itemsSpellAt_iff.1 h.spells)⟩
  · intro o e t r _
    exact forall_head?_cons (b := 0x2c) List.mem_cons_self _
  · intro o
    exact refuses_literal_of_head (b := 0x2c) rfl (forall_head?_cons (P := (· ≠ 0x2c)) hcomma s)
  · intro e he o t r hspells hr
    refine hcomplete ⟨hspells, Expr.allWellFormed_iff.1 h.wellFormed e he, Nat.zero_le _, ?_⟩
      (Or.inl hr)
    exact Expr.nestingList_le_iff.1 (Nat.le_sub_one_of_lt h.nesting_lt) e he

/-- Arguments are taken, whatever follows them. -/
theorem takes_arguments (hi : InnerComplete d inner?) {args : List (Expr Nat)} {u : Bytes}
    (h : Expr.ItemsStandAt d (o + 1) args u) (r : Bytes) :
    (arguments inner?).Takes o (Bytes.ofString "(" ++ (u ++ Bytes.ofString ")")) r args := by
  obtain ⟨inner, hinner, hlist⟩ := exists_takes_list (r := Bytes.ofString ")" ++ r) hi h
    ⟨_, r, rfl, by decide⟩
  exact (takes_literal _ o _).bind
    (takes_enter_bind hinner (hlist.bind ((takes_literal _ _ r).map fun _ => args)))

/-! ### Primaries -/

/-- An array is read up to its closing bracket. -/
theorem takes_array (hi : InnerComplete d inner?) {es : List (Expr Nat)} {u : Bytes}
    (h : Expr.ItemsStandAt d (o + 1) es u) (r : Bytes) :
    (array inner?).Takes o (Bytes.ofString "[" ++ (u ++ Bytes.ofString "]")) r (.array o es) := by
  obtain ⟨inner, hinner, hlist⟩ := exists_takes_list (r := Bytes.ofString "]" ++ r) hi h
    ⟨_, r, rfl, by decide⟩
  exact (takes_offset o _).bind ((takes_literal _ o _).bind
    (takes_enter_bind hinner (hlist.bind ((takes_literal _ _ r).map fun _ => Expr.array o es))))

/-- A text without quotes in it is read up to its closing quote, whatever comes behind. -/
theorem takes_text {value : Bytes} (h : Bytes.doubleQuote ∉ value) (r : Bytes) :
    text.Takes o (Bytes.doubleQuote :: value ++ [Bytes.doubleQuote]) r (.text o value) := by
  have hbody : ∀ o, textBody.Takes o (value ++ [Bytes.doubleQuote]) r value := by
    intro o
    have hcut : Bytes.cut? Bytes.doubleQuote (value ++ [Bytes.doubleQuote] ++ r) =
        some (value, r) := Bytes.cut?_eq_some_iff.2 ⟨by simp, h⟩
    unfold Takes Reads textBody
    rw [hcut]
    simp [Nat.add_assoc]
  exact (takes_offset o _).bind
    ((takes_literal [Bytes.doubleQuote] o _).bind ((hbody _).map (Expr.text o)))

/-- A name is read whole when no letter follows it. -/
theorem takes_identifier {name r : Bytes} (h : IsName name)
    (hr : ∀ b ∈ r.head?, Bytes.isNameByte b = false) : identifier.Takes o name r name :=
  takes_run _ o h.1 h.2 hr

/-- A number is taken whole when no digit follows. -/
theorem takes_number {x : Float} {t r : Bytes} (h : IsNumeral x t)
    (hr : ∀ b ∈ r.head?, Bytes.isDigit b = false) : number.Takes o t r (.number o x) := by
  obtain ⟨hne, hdigits, rfl⟩ := h
  exact (takes_offset o _).bind ((takes_run _ o hne hdigits hr).map
    fun digits => Expr.number o (Float.ofNat (Bytes.toNat digits)))

theorem takes_bool (b : Bool) (r : Bytes) :
    bool.Takes o (Bytes.ofString (if b then "true" else "false")) r (.bool o b) := by
  refine (takes_offset o _).bind ?_
  cases b with
  | true => exact ((takes_literal _ o r).map fun _ => Expr.bool o true).orElse_left _
  | false =>
    refine ((takes_literal _ o r).map fun _ => Expr.bool o false).orElse_right ?_
    exact refuses_map.2 (refuses_literal_of_head (b := 0x74) rfl
      (forall_head?_cons (b := 0x66) (by decide) _))

/-- A truth value is taken whatever follows it, also a letter. -/
theorem takes_primary_bool (b : Bool) (r : Bytes) :
    (primary inner?).Takes o (Bytes.ofString (if b then "true" else "false")) r (.bool o b) := by
  refine ((takes_bool b r).orElse_left _).orElse_right (refuses_array ?_)
  cases b with
  | true => exact forall_head?_cons (b := 0x74) (by decide) _
  | false => exact forall_head?_cons (b := 0x66) (by decide) _

/-- **Primaries are complete**, when neither a letter nor a digit follows. -/
theorem takes_primary (hi : InnerComplete d inner?) {e : Expr Nat} {t r : Bytes}
    (h : e.StandsAt 4 d o t) (hprim : e.IsPrimary)
    (hname : ∀ b ∈ r.head?, Bytes.isNameByte b = false)
    (hdigit : ∀ b ∈ r.head?, Bytes.isDigit b = false) : (primary inner?).Takes o t r e := by
  obtain ⟨hspells, hwf, -, hnest⟩ := h
  cases e with
  | array mark es =>
    obtain ⟨rfl, u, hu, rfl⟩ := hspells
    exact (takes_array hi ⟨hu, hwf, hnest⟩ r).orElse_left _
  | bool mark b =>
    obtain ⟨rfl, rfl⟩ := hspells
    exact takes_primary_bool b r
  | number mark x =>
    obtain ⟨rfl, hx⟩ := hspells
    obtain ⟨b, t, rfl⟩ := List.exists_cons_of_ne_nil hx.1
    have hb : Bytes.isDigit b = true := hx.2.1 b List.mem_cons_self
    have hbracket : b ≠ 0x5b := by
      rintro rfl
      exact absurd hb (by decide)
    have hletter : Bytes.isNameByte b = false := not_isNameByte_of_isDigit hb
    refine (((takes_number hx hdigit).orElse_left _).orElse_right
      (refuses_bool_of_head ?_)).orElse_right (refuses_array ?_)
    · exact forall_head?_cons hletter _
    · exact forall_head?_cons (P := (· ≠ 0x5b)) hbracket _
  | text mark value =>
    obtain ⟨rfl, rfl⟩ := hspells
    refine ((((takes_text hwf r).orElse_left _).orElse_right (refuses_number ?_)).orElse_right
      (refuses_bool_of_head ?_)).orElse_right (refuses_array ?_)
    all_goals exact forall_head?_cons (b := Bytes.doubleQuote) (by decide) _
  | var mark name =>
    obtain ⟨rfl, rfl⟩ := hspells
    obtain ⟨hn, htrue, hfalse⟩ := hwf
    obtain ⟨b, t, rfl⟩ := List.exists_cons_of_ne_nil hn.1
    have hb : Bytes.isNameByte b = true := hn.2 b List.mem_cons_self
    have hvar : var.Takes mark (b :: t) r (.var mark (b :: t)) :=
      (takes_offset mark _).bind ((takes_identifier hn hname).map (Expr.var mark))
    have hquote : b ≠ Bytes.doubleQuote := by
      rintro rfl
      exact absurd hb (by decide)
    have hbracket : b ≠ 0x5b := by
      rintro rfl
      exact absurd hb (by decide)
    have hnum : Bytes.isDigit b = false := not_isDigit_of_isNameByte hb
    -- a variable is the last choice: no other primary begins with a letter, and truth values are
    -- ruled out by the name
    refine (((hvar.orElse_right (refuses_text ?_)).orElse_right (refuses_number ?_)).orElse_right
      (refuses_bool htrue hfalse hname)).orElse_right (refuses_array ?_)
    · exact forall_head?_cons (P := (· ≠ Bytes.doubleQuote)) hquote _
    · exact forall_head?_cons hnum _
    · exact forall_head?_cons (P := (· ≠ 0x5b)) hbracket _
  | binary | call | index | member | method => exact absurd hprim (by simp [Expr.IsPrimary])

/-! ### Operands -/

theorem refuses_arguments {r : Bytes} (h : ∀ b ∈ r.head?, b ≠ 0x28) :
    (arguments inner?).Refuses ⟨o, r⟩ :=
  refuses_bind.2 (Or.inl (refuses_literal_of_head (b := 0x28) rfl h))

/-- Without a dot there is no member. -/
theorem refuses_access {r : Bytes} (h : ∀ b ∈ r.head?, b ≠ 0x2e) (mark : Nat)
    (object : Expr Nat) : (access inner? mark object).Refuses ⟨o, r⟩ :=
  refuses_bind.2 (Or.inl (refuses_literal_of_head (b := 0x2e) rfl h))

theorem refuses_index {r : Bytes} (h : ∀ b ∈ r.head?, b ≠ 0x5b) (mark : Nat)
    (object : Expr Nat) : (index inner? mark object).Refuses ⟨o, r⟩ :=
  refuses_bind.2 (Or.inl (refuses_literal_of_head (b := 0x5b) rfl h))

/-- A primary is not the name of a call. -/
theorem refuses_call {e : Expr Nat} {t r : Bytes} (h : e.StandsAt 4 d o t) (hprim : e.IsPrimary)
    (hr : Ends r) (mark : Nat) : (call inner? mark).Refuses ⟨o, t ++ r⟩ := by
  -- a word is read as the name, and then there are no arguments
  have hword : ∀ {name}, IsName name → (call inner? mark).Refuses ⟨o, name ++ r⟩ := by
    intro name hname
    exact refuses_bind.2 (Or.inr ⟨name, _, takes_identifier hname hr.not_isNameByte,
      refuses_bind.2 (Or.inl (refuses_arguments (hr.ne (by decide))))⟩)
  -- any other primary does not begin like a name
  have hother : ∀ {b s}, Bytes.isNameByte b = false → (call inner? mark).Refuses ⟨o, b :: s⟩ := by
    intro b s hb
    exact refuses_bind.2 (Or.inl (refuses_run (forall_head?_cons hb s)))
  obtain ⟨hspells, hwf, -, -⟩ := h
  cases e with
  | var mark' name =>
    obtain ⟨-, rfl⟩ := hspells
    exact hword hwf.1
  | bool mark' b =>
    obtain ⟨-, rfl⟩ := hspells
    cases b with
    | true => exact hword ⟨by decide, by decide +kernel⟩
    | false => exact hword ⟨by decide, by decide +kernel⟩
  | number mark' x =>
    obtain ⟨-, hx⟩ := hspells
    obtain ⟨b, t, rfl⟩ := List.exists_cons_of_ne_nil hx.1
    exact hother (not_isNameByte_of_isDigit (hx.2.1 b List.mem_cons_self))
  | text mark' value =>
    obtain ⟨-, rfl⟩ := hspells
    exact hother (by decide)
  | array mark' es =>
    obtain ⟨-, u, -, rfl⟩ := hspells
    exact hother (b := 0x5b) (by decide)
  | binary | call | index | member | method => exact absurd hprim (by simp [Expr.IsPrimary])

/-- The name of a call reads as a primary first, as a variable or, when it begins like one,
as a truth value; either way what is left begins with a letter or is what follows the name. -/
theorem exists_reads_primary (hi : InnerComplete d inner?) {name r : Bytes} (h : IsName name)
    (hname : ∀ b ∈ r.head?, Bytes.isNameByte b = false)
    (hdigit : ∀ b ∈ r.head?, Bytes.isDigit b = false) :
    ∃ object o' r', (primary inner?).Reads ⟨o, name ++ r⟩ object ⟨o', r'⟩ ∧
      (r' = r ∨ ∃ b s, r' = b :: s ∧ Bytes.isNameByte b = true) := by
  -- a name that begins with a truth value is read up to there, and the rest of it is left
  have hbool : ∀ b : Bool,
      Bytes.beginsWith name (Bytes.ofString (if b then "true" else "false")) = true →
      ∃ object o' r', (primary inner?).Reads ⟨o, name ++ r⟩ object ⟨o', r'⟩ ∧
        (r' = r ∨ ∃ b s, r' = b :: s ∧ Bytes.isNameByte b = true) := by
    intro b hb
    obtain ⟨y, rfl⟩ := Bytes.beginsWith_eq_true_iff.1 hb
    have htake : (primary inner?).Takes o _ (y ++ r) _ := takes_primary_bool b (y ++ r)
    rw [Takes, ← List.append_assoc] at htake
    refine ⟨_, _, _, htake, ?_⟩
    cases y with
    | nil => exact Or.inl rfl
    | cons c y => exact Or.inr ⟨c, y ++ r, rfl, h.2 c (by simp)⟩
  cases htrue : Bytes.beginsWith name (Bytes.ofString "true") with
  | true => exact hbool true htrue
  | false =>
    cases hfalse : Bytes.beginsWith name (Bytes.ofString "false") with
    | true => exact hbool false hfalse
    | false =>
      have hstands : (Expr.var o name).StandsAt 4 d o name :=
        ⟨⟨rfl, rfl⟩, ⟨h, htrue, hfalse⟩, Nat.le_refl 4, Nat.zero_le d⟩
      exact ⟨_, _, _, takes_primary hi hstands trivial hname hdigit, Or.inl rfl⟩

/-- **Operands are complete.** -/
theorem complete_operand (hi : InnerComplete d inner?) : Complete 4 d (operand inner?) := by
  intro o e t r h hr
  have hends := hr.ends
  -- the object of a postfix form is taken when a bracket or a dot follows it
  have hobject : ∀ {object : Expr Nat} {u s : Bytes} {b : UInt8}, object.SpellsAt o u →
      object.IsPrimary → object.WellFormed → object.nesting ≤ d → b ∈ Bytes.ofString ".[" →
      (primary inner?).Takes o u (b :: s) object := by
    intro object u s b hs hp hwf hn hb
    have hname : Bytes.isNameByte b = false :=
      (by decide +kernel : ∀ b ∈ Bytes.ofString ".[", Bytes.isNameByte b = false) b hb
    have hdigit : Bytes.isDigit b = false :=
      (by decide +kernel : ∀ b ∈ Bytes.ofString ".[", Bytes.isDigit b = false) b hb
    exact takes_primary hi ⟨hs, hwf, hp.le_level, hn⟩ hp (forall_head?_cons hname s)
      (forall_head?_cons hdigit s)
  -- a primary with nothing after it: all three postfix forms are refused
  have hplain : e.IsPrimary → (operand inner?).Takes o t r e := by
    intro hprim
    refine reads_bind.2 ⟨e, _, takes_primary hi h hprim hends.not_isNameByte hends.not_isDigit, ?_⟩
    exact reads_orElse.2 (Or.inr ⟨refuses_access (hends.ne (by decide)) o e,
      reads_orElse.2 (Or.inr ⟨refuses_index (hends.ne (by decide)) o e,
        reads_orElse.2 (Or.inr ⟨refuses_call h hprim hends o, reads_pure.2 ⟨rfl, rfl⟩⟩)⟩)⟩)
  cases e with
  | var | bool | number | text | array => exact hplain trivial
  | binary mark op left right =>
    have hlevel : 4 ≤ op.level := h.le_level
    exact absurd hlevel (by cases op <;> decide)
  | member mark object property =>
    obtain ⟨⟨rfl, u, hu, rfl⟩, ⟨hprim, hwf, hname⟩, -, hnest⟩ := h
    have haccess : (access inner? mark object).Takes (mark + u.length)
        (Bytes.ofString "." ++ property) r (.member mark object property) := by
      refine (takes_literal _ _ _).bind ?_
      refine reads_bind.2 ⟨property, _, takes_identifier hname hends.not_isNameByte, ?_⟩
      exact reads_orElse.2 (Or.inr ⟨refuses_bind.2 (Or.inl (refuses_arguments
        (hends.ne (by decide)))), reads_pure.2 ⟨rfl, rfl⟩⟩)
    exact (hobject hu hprim hwf hnest (by decide)).bind (haccess.orElse_left _)
  | method mark object name args =>
    obtain ⟨⟨rfl, u, v, hu, hv, rfl⟩, ⟨hprim, hwf, hname, hargs⟩, -, hnest⟩ := h
    obtain ⟨hnest, hlt⟩ := Nat.max_le.1 hnest
    have haccess : (access inner? mark object).Takes (mark + u.length)
        (Bytes.ofString "." ++ (name ++ (Bytes.ofString "(" ++ (v ++ Bytes.ofString ")")))) r
        (.method mark object name args) := by
      refine (takes_literal _ _ _).bind ((takes_identifier hname ?_).bind (Takes.orElse_left
        ((takes_arguments hi ⟨hv, hargs, hlt⟩ r).map (Expr.method mark object name)) _))
      exact forall_head?_cons (b := 0x28) (by decide) _
    exact (hobject hu hprim hwf hnest (by decide)).bind (haccess.orElse_left _)
  | index mark object place =>
    obtain ⟨⟨rfl, u, v, hu, hv, rfl⟩, ⟨hprim, hwf, hplace⟩, -, hnest⟩ := h
    obtain ⟨hnest, hlt⟩ := Nat.max_le.1 hnest
    obtain ⟨inner, hinner, hcomplete, -⟩ := hi (d - 1) (by omega)
    have hindex : (index inner? mark object).Takes (mark + u.length)
        (Bytes.ofString "[" ++ (v ++ Bytes.ofString "]")) r (.index mark object place) := by
      have hcloses : Closes (Bytes.ofString "]" ++ r) :=
        forall_head?_cons (b := 0x5d) (by decide) r
      exact (takes_literal _ _ _).bind (takes_enter_bind hinner
        ((hcomplete ⟨hv, hplace, Nat.zero_le _, Nat.le_sub_one_of_lt hlt⟩ (Or.inl hcloses)).bind
          ((takes_literal _ _ r).map fun _ => Expr.index mark object place)))
    exact (hobject hu hprim hwf hnest (by decide)).bind ((hindex.orElse_left _).orElse_right
      (refuses_access (forall_head?_cons (b := 0x5b) (by decide) _) mark object))
  | call mark name args =>
    obtain ⟨⟨rfl, u, hu, rfl⟩, ⟨hname, hargs⟩, -, hlt⟩ := h
    have hparen : ∀ {P : UInt8 → Prop}, P 0x28 →
        ∀ b ∈ (Bytes.ofString "(" ++ (u ++ Bytes.ofString ")") ++ r).head?, P b :=
      fun h => forall_head?_cons (b := 0x28) h _
    have hcall : (call inner? mark).Takes mark
        (name ++ (Bytes.ofString "(" ++ (u ++ Bytes.ofString ")"))) r (.call mark name args) :=
      (takes_identifier hname (hparen (by decide))).bind
        ((takes_arguments hi ⟨hu, hargs, hlt⟩ r).map (Expr.call mark name))
    obtain ⟨object, o', r', hread, hr'⟩ := exists_reads_primary (o := mark) hi hname
      (hparen (by decide)) (hparen (by decide))
    -- neither a dot nor a bracket is ahead once the name has been read as a primary
    have hahead : ∀ b ∈ r'.head?, b ≠ 0x2e ∧ b ≠ 0x5b := by
      rcases hr' with rfl | ⟨b', s, rfl, hb'⟩
      · exact hparen (by decide)
      · refine forall_head?_cons ⟨?_, ?_⟩ s
        · rintro rfl
          exact absurd hb' (by decide)
        · rintro rfl
          exact absurd hb' (by decide)
    rw [← List.append_assoc] at hread
    exact reads_bind.2 ⟨object, _, hread, reads_orElse.2 (Or.inr
      ⟨refuses_access (fun b hb => (hahead b hb).1) mark object, reads_orElse.2 (Or.inr
        ⟨refuses_index (fun b hb => (hahead b hb).2) mark object,
          reads_orElse.2 (Or.inl hcall)⟩)⟩)⟩

/-! ### Binary expressions -/

/-- Two operators with their blanks never begin alike. -/
theorem after?_spaced (op op' : Operator) (x : Bytes) :
    Bytes.after? op.spaced (op'.spaced ++ x) = if op = op' then some x else none := by
  cases op <;> cases op' <;> rfl

/-- An operator is not read before what follows its level: nothing there begins with a blank and an
operator of the level. -/
theorem refuses_rightOperand {op : Operator} {r : Bytes} (hop : op.level = lvl) (h : Follows lvl r)
    (next : Parser (Expr Nat)) (left : Expr Nat) :
    (rightOperand next op left).Refuses ⟨o, r⟩ := by
  rw [rightOperand, refuses_offset_bind, refuses_bind]
  refine Or.inl ?_
  rcases h with h | ⟨op', x, hop', rfl⟩
  · refine refuses_literal_of_head (b := Bytes.space) rfl ?_
    rintro b hb rfl
    exact absurd (h _ hb) (by decide)
  · refine refuses_literal.2 ((after?_spaced op op' x).trans (if_neg ?_))
    rintro rfl
    omega

/-- An operator and what follows it make the expression with the left operand, marked one byte after
the blank. -/
theorem takes_rightOperand {next : Parser (Expr Nat)} (hn : Complete (lvl + 1) d next)
    {right : Expr Nat} {op : Operator} {v r : Bytes}
    (h : right.StandsAt (lvl + 1) d (o + op.spaced.length) v) (hr : Follows (lvl + 1) r)
    (left : Expr Nat) :
    (rightOperand next op left).Takes o (op.spaced ++ v) r (.binary (o + 1) op left right) :=
  (takes_offset o _).bind ((takes_literal op.spaced o _).bind
    ((hn h hr).map (Expr.binary (o + 1) op left)))

/-- **A level of binary operators is complete** when the next tighter one is, if its two
operators are all there are at that level. -/
theorem complete_level {next : Parser (Expr Nat)} (hn : Complete (lvl + 1) d next)
    {op op' : Operator} (hop : op.level = lvl) (hop' : op'.level = lvl)
    (hall : ∀ x : Operator, x.level = lvl → x = op ∨ x = op') :
    Complete lvl d (level op op' next) := by
  intro o e t r h hr
  have hnext : Follows (lvl + 1) r := hr.mono (Nat.le_succ lvl)
  rcases Nat.lt_or_ge lvl e.level with hlt | hge
  · -- not a binary node of this level: no operator is ahead
    refine reads_bind.2 ⟨e, _, hn ⟨h.spells, h.wellFormed, hlt, h.nesting_le⟩ hnext, ?_⟩
    exact reads_orElse.2 (Or.inr ⟨refuses_rightOperand hop hr next e,
      reads_orElse.2 (Or.inr ⟨refuses_rightOperand hop' hr next e, reads_pure.2 ⟨rfl, rfl⟩⟩)⟩)
  obtain ⟨hspells, hwf, hle, hnest⟩ := h
  have heq : e.level = lvl := Nat.le_antisymm hge hle
  cases e with
  | binary mark x left right =>
    obtain ⟨u, v, hu, rfl, hv, rfl⟩ := hspells
    obtain ⟨hl, hr', hlwf, hrwf⟩ := hwf
    obtain ⟨hlnest, hrnest⟩ := Nat.max_le.1 hnest
    have hx : x.level = lvl := heq
    have hleft : next.Takes o u (x.spaced ++ v ++ r) left :=
      hn ⟨hu, hlwf, by omega, hlnest⟩
        (Or.inr ⟨x, v ++ r, by omega, List.append_assoc _ _ _⟩)
    have hright : ∀ left, (rightOperand next x left).Takes (o + u.length) (x.spaced ++ v) r
        (.binary (o + u.length + 1) x left right) :=
      takes_rightOperand hn ⟨hv, hrwf, by omega, hrnest⟩ hnext
    refine hleft.bind ?_
    -- the two operators of the level are tried in turn
    by_cases hfirst : x = op
    · subst hfirst
      exact (hright left).orElse_left _
    · obtain rfl : x = op' := (hall x hx).resolve_left hfirst
      refine ((hright left).orElse_left _).orElse_right ?_
      rw [rightOperand, refuses_offset_bind, refuses_bind]
      refine Or.inl (refuses_literal.2 ?_)
      rw [List.append_assoc]
      exact (after?_spaced op x (v ++ r)).trans (if_neg (Ne.symm hfirst))
  | var | bool | number | text | array | call | index | member | method =>
    -- such a node is above all operators
    have hlvl : lvl = 4 := heq.symm
    rw [hlvl] at hop
    cases op <;> exact absurd hop (by decide)

/-- An expression is read whole, at every level, when what stands inside its brackets is. -/
theorem complete_expressionWith (hi : InnerComplete d inner?) :
    Complete 0 d (expressionWith inner?) := by
  refine complete_level (complete_level (complete_level (complete_level (complete_operand hi)
    rfl rfl ?_) rfl rfl ?_) rfl rfl ?_) rfl rfl ?_
  all_goals
    intro x hx
    cases x <;> simp_all [Operator.level]

/-- **Expressions are complete**, by induction on the number of brackets that may be opened. -/
theorem complete_expressionAt (d : Nat) : Complete 0 d (expressionAt d) := by
  induction d with
  | zero =>
    rw [expressionAt_zero]
    exact complete_expressionWith fun d' h => absurd h (by omega)
  | succ d ih =>
    rw [expressionAt_succ]
    refine complete_expressionWith fun d' h => ⟨expressionAt d, rfl, ?_, ?_⟩
    · obtain rfl : d = d' := by omega
      exact ih
    · intro o s hs
      exact refuses_expressionAt hs d

/-! ### Clauses and bodies -/

/-- **What follows a statement**: the end of the source, or the first letter of a line. -/
def StatementEnds (r : Bytes) : Prop :=
  r = [] ∨ ∃ b s, r = Bytes.newline :: b :: s ∧ Bytes.isNameByte b = true

theorem StatementEnds.closes {r : Bytes} (h : StatementEnds r) : Closes r := by
  rcases h with rfl | ⟨b', s, rfl, -⟩
  · intro b hb
    cases hb
  · exact forall_head?_cons (b := Bytes.newline) (by decide) _

theorem takes_expression {e : Expr Nat} {t r : Bytes} (h : e.StandsAt 0 1000 o t) (hr : Closes r) :
    expression.Takes o t r e :=
  complete_expressionAt maxNesting h (Or.inl hr)

/-- No expression begins with an equals sign, so a keyword before one is a name. -/
theorem beginsNothing_of_equals {s : Bytes} (h : ∀ b ∈ s.head?, b = 0x3d) : BeginsNothing s := by
  intro b hb
  rw [h b hb]
  decide

/-- **A keyword does not get in the way of an assignment to its name**: what comes after it is an
equals sign, and nothing begins with that. -/
theorem refuses_keyword {β : Type} (word : Bytes) {name x : Bytes} {p : Parser β}
    (hw : ∀ b ∈ word, Bytes.isNameByte b = true) (hname : IsName name)
    (hp : ∀ {o s}, (∀ b ∈ s.head?, b = 0x3d) → p.Refuses ⟨o, s⟩) :
    (literal (word ++ [Bytes.space]) >>= fun _ => p).Refuses
      ⟨o, name ++ (Bytes.ofString " = " ++ x)⟩ := by
  rcases ha : Bytes.after? (word ++ [Bytes.space]) (name ++ (Bytes.ofString " = " ++ x)) with _ | y
  · exact refuses_bind.2 (Or.inl (refuses_literal.2 ha))
  · have heq := Bytes.after?_eq_some_iff.1 ha
    rw [List.append_assoc] at heq
    obtain ⟨z, rfl, hz⟩ := exists_append_of_name hw (r := Bytes.ofString " = " ++ x)
      (forall_head?_cons (b := Bytes.space) (by decide) _) heq
    -- the word is the whole name: its blank is not the next letter of a longer one
    have hnil : z = [] := by
      cases z with
      | nil => rfl
      | cons b z =>
        obtain rfl : Bytes.space = b := (List.cons.inj hz).1
        exact absurd (hname.2 Bytes.space (by simp)) (by decide)
    subst hnil
    obtain rfl : y = 0x3d :: 0x20 :: x := (List.cons.inj hz).2
    have htake := takes_literal (word ++ [Bytes.space]) o (0x3d :: 0x20 :: x)
    rw [Takes, List.append_assoc] at htake
    rw [List.append_nil]
    exact refuses_bind.2 (Or.inr ⟨(), _, htake, hp (forall_head?_cons (P := (· = 0x3d)) rfl _)⟩)

/-- **Clauses are complete.** -/
theorem takes_clause {c : Clause Nat} {t r : Bytes} (h : c.StandsAt o t) (hr : Closes r) :
    clause.Takes o t r c := by
  obtain ⟨hspells, hwf⟩ := h
  cases c with
  | ret mark value =>
    obtain ⟨rfl, u, hu, rfl⟩ := hspells
    have hv : value.StandsAt 0 1000 (mark + 7) u := ⟨hu, hwf.1, Nat.zero_le _, hwf.2⟩
    exact Takes.orElse_left ((takes_offset mark _).bind ((takes_literal _ mark _).bind
      ((takes_expression hv hr).map (Clause.ret mark)))) _
  | assign mark name value =>
    obtain ⟨rfl, u, hu, rfl⟩ := hspells
    obtain ⟨hname, hvwf, hnest⟩ := hwf
    have hv : value.StandsAt 0 1000 (mark + name.length + 3) u :=
      ⟨hu, hvwf, Nat.zero_le _, hnest⟩
    have hassign : assign.Takes mark (name ++ (Bytes.ofString " = " ++ u)) r
        (.assign mark name value) := by
      refine (takes_offset mark _).bind ((takes_identifier hname ?_).bind
        ((takes_literal _ _ _).bind ((takes_expression hv hr).map (Clause.assign mark name))))
      exact forall_head?_cons (b := Bytes.space) (by decide) _
    -- the name may be `return`
    refine hassign.orElse_right ?_
    rw [ret, refuses_offset_bind, List.append_assoc, List.append_assoc]
    exact refuses_keyword (Bytes.ofString "return") (by decide +kernel) hname fun hs =>
      refuses_bind.2 (Or.inl (refuses_expressionAt (beginsNothing_of_equals hs) _))

/-- A body ends where no line is indented. -/
theorem takes_body {cs : List (Clause Nat)} {t r : Bytes} (h : Clause.BodySpellsAt o cs t)
    (hwf : ∀ c ∈ cs, c.WellFormed) (hr : StatementEnds r) : body.Takes o t r cs := by
  refine takes_many (F := Closes) (by decide) ?_ hr.closes ?_ ?_ h
  · intro o c t r _
    exact forall_head?_cons (b := Bytes.newline) (by decide) _
  · intro o
    -- what follows is a line that begins with a letter, so not with a blank
    refine refuses_bind.2 (Or.inl (refuses_literal.2 ?_))
    rcases hr with rfl | ⟨b, s, rfl, hb⟩
    · rfl
    · have hne : (0x20 : UInt8) ≠ b := by
        rintro rfl
        exact absurd hb (by decide)
      exact if_neg hne
  · intro c hc o t r hspells hr
    exact takes_clause ⟨hspells, hwf c hc⟩ hr

/-! ### Statements -/

theorem takes_params {params : List Bytes} {r : Bytes} (h : ∀ p ∈ params, IsName p)
    (hr : r.head? = some 0x29) :
    (list identifier).Takes o (Bytes.join (Bytes.ofString ", ") params) r params := by
  have hparen : ∀ {P : UInt8 → Prop}, P 0x29 → ∀ b ∈ r.head?, P b := by
    intro P h
    rw [hr]
    exact forall_head?_cons (b := 0x29) h []
  -- parameters are names, and each is spelled by itself
  have hitems : ∃ ps : List Bytes, ps.map id = params ∧ ItemsAt (Bytes.ofString ", ")
      (fun _ name t => name = t) o ps (Bytes.join (Bytes.ofString ", ") params) := by
    refine exists_itemsAt_of_forall₂ (Q := Eq) ?_ (fun p _ {u} hu o => ⟨p, rfl, hu⟩) o
    rw [List.forall₂_eq_eq_eq]
  obtain ⟨ps, rfl, hps⟩ := hitems
  rw [List.map_id] at *
  refine takes_list (F := fun r => ∀ b ∈ r.head?, Bytes.isNameByte b = false) ?_ ?_ ?_ ?_ ?_ hps
  · intro o p t r _
    exact forall_head?_cons (b := 0x2c) (by decide) _
  · exact hparen (by decide)
  · intro o
    exact refuses_literal_of_head (b := 0x2c) rfl (hparen (by decide))
  · intro o
    exact refuses_run (hparen (by decide))
  · rintro p hp o t r rfl hr
    exact takes_identifier (h p hp) hr

/-- **A definition is read whole**, head and body. -/
theorem takes_func {name : Bytes} {f : Func Nat} {t r : Bytes}
    (h : (Stmt.func name f).StandsAt o t) (hr : StatementEnds r) :
    func.Takes o t r (.func name f) := by
  obtain ⟨mark, params, body⟩ := f
  obtain ⟨⟨rfl, u, v, rfl, hv, rfl⟩, hname, hparams, hbody⟩ := h
  have hbody' := (takes_body hv hbody hr).map fun clauses =>
    Stmt.func name ⟨mark, params, clauses⟩
  simp only [List.append_assoc, List.length_append, ← Nat.add_assoc] at hbody' ⊢
  refine (takes_offset mark _).bind ((takes_literal _ mark _).bind
    ((takes_identifier hname ?_).bind ((takes_literal _ _ _).bind
      ((takes_params hparams rfl).bind ((takes_literal _ _ _).bind hbody')))))
  exact forall_head?_cons (b := 0x28) (by decide) _

/-- A condition and a body, after a keyword: the common part of conditionals and loops. -/
theorem takes_block {condition : Expr Nat} {clauses : List (Clause Nat)} {u v r : Bytes}
    (hwf : condition.WellFormed ∧ condition.nesting ≤ 1000 ∧ ∀ c ∈ clauses, c.WellFormed)
    (hu : condition.SpellsAt o u) (hv : Clause.BodySpellsAt (o + u.length) clauses v)
    (hr : StatementEnds r) (g : Expr Nat → List (Clause Nat) → Stmt Nat) :
    (do let e ← expression; let cs ← body; pure (g e cs) : Parser (Stmt Nat)).Takes o (u ++ v) r
      (g condition clauses) := by
  obtain ⟨hcond, hnest, hclauses⟩ := hwf
  -- the condition ends at the first line of the body or, if there is none, with the statement
  have hnext : Closes (v ++ r) := by
    cases clauses with
    | nil =>
      obtain rfl : v = [] := hv
      exact hr.closes
    | cons c cs =>
      obtain ⟨t₁, t₂, rfl, ⟨w, rfl, -⟩, -⟩ := hv
      exact forall_head?_cons (b := Bytes.newline) (by decide) _
  exact (takes_expression ⟨hu, hcond, Nat.zero_le _, hnest⟩ hnext).bind
    ((takes_body hv hclauses hr).map (g condition))

/-- A statement begins with a letter. -/
theorem exists_cons_of_standsAt {s : Stmt Nat} {t : Bytes} (h : s.StandsAt o t) :
    ∃ b t', t = b :: t' ∧ Bytes.isNameByte b = true := by
  obtain ⟨hspells, hwf⟩ := h
  cases s with
  | clause c =>
    cases c with
    | assign mark name value =>
      obtain ⟨-, u, -, rfl⟩ := hspells
      obtain ⟨b, n, rfl⟩ := List.exists_cons_of_ne_nil hwf.1.1
      exact ⟨b, _, rfl, hwf.1.2 b List.mem_cons_self⟩
    | ret mark value =>
      obtain ⟨-, u, -, rfl⟩ := hspells
      exact ⟨0x72, _, rfl, by decide⟩
  | func name f =>
    obtain ⟨-, u, v, rfl, -, rfl⟩ := hspells
    exact ⟨0x66, _, rfl, by decide⟩
  | cond mark condition body =>
    obtain ⟨-, u, v, -, -, rfl⟩ := hspells
    exact ⟨0x69, _, rfl, by decide⟩
  | loop mark condition body =>
    obtain ⟨-, u, v, -, -, rfl⟩ := hspells
    exact ⟨0x77, _, rfl, by decide⟩

/-- A keyword whose first letter is another one is refused. -/
theorem refuses_word {β : Type} {word : Bytes} {b b' : UInt8} {s : Bytes} {f : Nat → Parser β}
    (hw : word.head? = some b) (hne : b' ≠ b) :
    (do let mark ← offset; literal word; f mark : Parser β).Refuses ⟨o, b' :: s⟩ := by
  have hahead : ∀ x ∈ (b' :: s).head?, x ≠ b := forall_head?_cons (P := (· ≠ b)) hne s
  rw [refuses_offset_bind]
  exact refuses_bind.2 (Or.inl (refuses_literal_of_head hw hahead))

/-- A clause is not taken for a definition, a loop or a conditional. -/
theorem refuses_blocks {c : Clause Nat} {t : Bytes} (h : c.StandsAt o t) (r : Bytes) :
    func.Refuses ⟨o, t ++ r⟩ ∧ loop.Refuses ⟨o, t ++ r⟩ ∧ cond.Refuses ⟨o, t ++ r⟩ := by
  cases c with
  | ret mark value =>
    obtain ⟨⟨-, u, -, rfl⟩, -⟩ := h
    exact ⟨refuses_word rfl (by decide), refuses_word rfl (by decide), refuses_word rfl (by decide)⟩
  | assign mark name value =>
    obtain ⟨⟨-, u, -, rfl⟩, hname, -⟩ := h
    -- a name that is the keyword has an equals sign behind it, where no expression begins
    have hexpr : ∀ {β : Type} {f : Expr Nat → Parser β} {o s}, (∀ b ∈ s.head?, b = 0x3d) →
        (expression >>= f).Refuses ⟨o, s⟩ := fun hs =>
      refuses_bind.2 (Or.inl (refuses_expressionAt (beginsNothing_of_equals hs) _))
    rw [List.append_assoc, List.append_assoc]
    refine ⟨?_, ?_, ?_⟩
    · rw [func, refuses_offset_bind]
      exact refuses_keyword (Bytes.ofString "func") (by decide +kernel) hname fun hs =>
        refuses_bind.2 (Or.inl (refuses_run fun b hb => (beginsNothing_of_equals hs b hb).2.2.2))
    · rw [loop, refuses_offset_bind]
      exact refuses_keyword (Bytes.ofString "while") (by decide +kernel) hname hexpr
    · rw [cond, refuses_offset_bind]
      exact refuses_keyword (Bytes.ofString "if") (by decide +kernel) hname hexpr

/-- **Statements are complete.** -/
theorem takes_statement {s : Stmt Nat} {t r : Bytes} (h : s.StandsAt o t) (hr : StatementEnds r) :
    statement.Takes o t r s := by
  cases s with
  | func name f => exact (takes_func h hr).orElse_left _
  | loop mark condition clauses =>
    obtain ⟨⟨rfl, u, v, hu, hv, rfl⟩, hwf⟩ := h
    have hloop : loop.Takes mark (Bytes.ofString "while " ++ (u ++ v)) r
        (.loop mark condition clauses) :=
      (takes_offset mark _).bind ((takes_literal _ mark _).bind
        (takes_block hwf hu hv hr (Stmt.loop mark)))
    exact (hloop.orElse_left _).orElse_right (refuses_word rfl (by decide))
  | cond mark condition clauses =>
    obtain ⟨⟨rfl, u, v, hu, hv, rfl⟩, hwf⟩ := h
    have hcond : cond.Takes mark (Bytes.ofString "if " ++ (u ++ v)) r
        (.cond mark condition clauses) :=
      (takes_offset mark _).bind ((takes_literal _ mark _).bind
        (takes_block hwf hu hv hr (Stmt.cond mark)))
    exact ((hcond.orElse_left _).orElse_right (refuses_word rfl (by decide))).orElse_right
      (refuses_word rfl (by decide))
  | clause c =>
    -- a clause is tried last
    obtain ⟨hfunc, hloop, hcond⟩ := refuses_blocks (c := c) h r
    exact ((((takes_clause (c := c) h hr.closes).map Stmt.clause).orElse_right hcond).orElse_right
      hloop).orElse_right hfunc

/-- **Scripts are complete**, up to the end of the source. -/
theorem takes_script {ss : List (Stmt Nat)} {t : Bytes} (hne : ss ≠ [])
    (h : ItemsAt (Bytes.ofString "\n") Stmt.StandsAt o ss t) : script.Takes o t [] ss := by
  obtain ⟨first, others, rfl⟩ := List.exists_cons_of_ne_nil hne
  obtain ⟨t₁, t₂, rfl, hfirst, hothers⟩ := h
  -- every statement but the last is followed by the first letter of the next
  have hline : ∀ {o s t r}, Stmt.StandsAt o s t →
      StatementEnds (Bytes.ofString "\n" ++ (t ++ r)) := by
    intro o s t r hs
    obtain ⟨b, t', rfl, hb⟩ := exists_cons_of_standsAt hs
    exact Or.inr ⟨b, t' ++ r, rfl, hb⟩
  have hnext : StatementEnds (t₂ ++ []) := by
    cases others with
    | nil =>
      obtain rfl : t₂ = [] := hothers
      exact Or.inl rfl
    | cons s others =>
      obtain ⟨t₃, t₄, rfl, ⟨u, rfl, hs⟩, -⟩ := hothers
      rw [List.append_assoc, List.append_assoc]
      exact hline hs
  have hmany : (many (do literal [Bytes.newline]; statement)).Takes (o + t₁.length) t₂ [] others :=
    takes_many (F := StatementEnds) (by decide) hline (Or.inl rfl)
      (fun _ => refuses_bind.2 (Or.inl (refuses_literal.2 rfl)))
      (fun s _ {o t r} hs hr => takes_statement hs hr) hothers
  have hend : endOfInput.Takes (o + t₁.length + t₂.length) [] [] () := rfl
  have hlast := hmany.bind (f := fun others => endOfInput >>= fun _ => pure (first :: others))
    (hend.map fun _ => first :: others)
  rw [List.append_nil] at hlast
  exact (takes_statement hfirst hnext).bind hlast

end Grammar

/-- **The parser is complete**: it reads every spelling of a well-formed script, and marks it as
it is spelled. -/
theorem parseMarked_complete {s : Bytes} {ss : List (Stmt Nat)} (h : Script.SpellsAt 0 ss s)
    (hwf : Script.WellFormed ss) : parseMarked s = .ok ss := by
  have hitems : Parser.ItemsAt (Bytes.ofString "\n") Stmt.StandsAt 0 ss s :=
    Parser.ItemsAt.mono h fun x hx _ _ hs => ⟨hs, hwf.2 x hx⟩
  have htake := Grammar.takes_script hwf.1 hitems
  rw [Parser.Takes, List.append_nil] at htake
  exact parseMarked_eq_ok_iff.2 ⟨_, htake⟩

/-! ### The parser on trees without marks -/

/-- Reading with offsets for marks gives the same bare tree as reading with positions. -/
theorem bare_statements_of_parse {s : Bytes} {script : Script} (h : parse s = .ok script) :
    ∃ ss : List (Stmt Nat), parseMarked s = .ok ss ∧
      script.statements.map Stmt.bare = ss.map Stmt.bare := by
  unfold parse at h
  rcases hp : parseMarked s with missed | ss
  · simp [hp] at h
  · simp only [hp, Except.ok.injEq] at h
    subst h
    refine ⟨ss, rfl, ?_⟩
    rw [List.map_map]
    exact List.map_congr_left fun x _ => x.bare_map _

/-- A source that is read with one kind of marks is read with the other. -/
theorem exists_parse_of_parseMarked {s : Bytes} {ss : List (Stmt Nat)}
    (h : parseMarked s = .ok ss) : ∃ script, parse s = .ok script := by
  unfold parse
  rw [h]
  exact ⟨_, rfl⟩

/-- What parses is well formed, and the source is one of its spellings. -/
theorem spells_of_parse {s : Bytes} {script : Script} (h : parse s = .ok script) :
    Script.WellFormed (script.statements.map Stmt.bare) ∧
      Script.Spells (script.statements.map Stmt.bare) s := by
  obtain ⟨ss, hss, heq⟩ := bare_statements_of_parse h
  obtain ⟨hspells, hwf⟩ := parseMarked_sound hss
  rw [heq]
  exact ⟨(Script.wellFormed_map _).2 hwf, Script.spells_iff_spellsAt.2 ⟨ss, rfl, hspells⟩⟩

/-- Every spelling of a well-formed script parses to it. -/
theorem exists_parse_of_spells {s : Bytes} {P : List (Stmt Unit)} (hwf : Script.WellFormed P)
    (hspells : Script.Spells P s) :
    ∃ script, parse s = .ok script ∧ script.statements.map Stmt.bare = P := by
  obtain ⟨ss, rfl, hat⟩ := Script.spells_iff_spellsAt.1 hspells
  have hss := parseMarked_complete hat ((Script.wellFormed_map _).1 hwf)
  obtain ⟨script, hparse⟩ := exists_parse_of_parseMarked hss
  obtain ⟨ss', hss', heq⟩ := bare_statements_of_parse hparse
  rw [hss] at hss'
  obtain rfl := Except.ok.inj hss'
  exact ⟨script, hparse, heq⟩

/-- **The parser reads exactly the spellings of well-formed scripts**: a source parses to a given
list of statements, positions aside, if and only if the list is well formed and the source is
one of its spellings. -/
theorem parse_iff_spells (s : Bytes) (P : List (Stmt Unit)) :
    (∃ script, parse s = .ok script ∧ script.statements.map Stmt.bare = P) ↔
      Script.WellFormed P ∧ Script.Spells P s := by
  constructor
  · rintro ⟨script, hparse, rfl⟩
    exact spells_of_parse hparse
  · rintro ⟨hwf, hspells⟩
    exact exists_parse_of_spells hwf hspells

end Scriptlet
