import Scriptlet.Proofs.Layout.Reflow
import Scriptlet.Proofs.Parsing.Completeness
import Scriptlet.Proofs.Text.Lines

/-!
# What formatting does to a script

Formatting knows nothing of the grammar, so it is no matter of course that a script is still one
afterwards. It is, and it is the same script but for its texts: the lines of a text that goes over
several of them are treated as if they were lines of the script. So **a formatted script is the
script with its texts reflowed**, and it is the same script exactly when reflowing leaves every text
as it is, as it does with a text of one line.

Wherever the grammar puts two pieces of a spelling together, one of the two bytes that meet is
solid: a name, a quote, a bracket, or the first or last byte of an expression, which is always one
of these. So reflowing goes through a spelling along the tree.
-/

namespace Scriptlet

variable {α : Type}

/-! ### Changing the texts of a script -/

mutual

/-- An expression with its texts changed by `g`. -/
def Expr.mapText (g : Bytes → Bytes) : Expr α → Expr α
  | .var mark name => .var mark name
  | .bool mark value => .bool mark value
  | .number mark value => .number mark value
  | .text mark value => .text mark (g value)
  | .array mark elements => .array mark (Expr.mapTextList g elements)
  | .binary mark op left right => .binary mark op (left.mapText g) (right.mapText g)
  | .call mark name args => .call mark name (Expr.mapTextList g args)
  | .index mark object place => .index mark (object.mapText g) (place.mapText g)
  | .member mark object property => .member mark (object.mapText g) property
  | .method mark object name args =>
    .method mark (object.mapText g) name (Expr.mapTextList g args)

/-- Expressions with their texts changed by `g`. -/
def Expr.mapTextList (g : Bytes → Bytes) : List (Expr α) → List (Expr α)
  | [] => []
  | e :: es => e.mapText g :: Expr.mapTextList g es

end

/-- A clause with its texts changed by `g`. -/
def Clause.mapText (g : Bytes → Bytes) : Clause α → Clause α
  | .assign mark name value => .assign mark name (value.mapText g)
  | .ret mark value => .ret mark (value.mapText g)

/-- **A statement with its texts changed by `g`.** -/
def Stmt.mapText (g : Bytes → Bytes) : Stmt α → Stmt α
  | .clause c => .clause (c.mapText g)
  | .func name f => .func name { f with body := f.body.map (Clause.mapText g) }
  | .cond mark condition body =>
    .cond mark (condition.mapText g) (body.map (Clause.mapText g))
  | .loop mark condition body =>
    .loop mark (condition.mapText g) (body.map (Clause.mapText g))

mutual

/-- The texts in an expression. -/
def Expr.texts : Expr α → List Bytes
  | .var .. | .bool .. | .number .. => []
  | .text _ value => [value]
  | .array _ elements => Expr.textsList elements
  | .binary _ _ left right => left.texts ++ right.texts
  | .call _ _ args => Expr.textsList args
  | .index _ object place => object.texts ++ place.texts
  | .member _ object _ => object.texts
  | .method _ object _ args => object.texts ++ Expr.textsList args

/-- The texts in expressions. -/
def Expr.textsList : List (Expr α) → List Bytes
  | [] => []
  | e :: es => e.texts ++ Expr.textsList es

end

/-- The texts in a clause. -/
def Clause.texts : Clause α → List Bytes
  | .assign _ _ value | .ret _ value => value.texts

/-- The texts in a statement. -/
def Stmt.texts : Stmt α → List Bytes
  | .clause c => c.texts
  | .func _ f => f.body.flatMap Clause.texts
  | .cond _ condition body | .loop _ condition body =>
    condition.texts ++ body.flatMap Clause.texts

section Same

variable {g : Bytes → Bytes}

/-- Changing the texts of an expression changes it, unless each of them stays as it is. -/
theorem Expr.mapText_eq_self_iff (e : Expr α) : e.mapText g = e ↔ ∀ v ∈ e.texts, g v = v := by
  have hlist : ∀ es : List (Expr α), (∀ e ∈ es, (e.mapText g = e ↔ ∀ v ∈ e.texts, g v = v)) →
      (Expr.mapTextList g es = es ↔ ∀ v ∈ Expr.textsList es, g v = v) := by
    intro es ih
    induction es with
    | nil => simp [Expr.mapTextList, Expr.textsList]
    | cons e es ihes =>
      rw [Expr.mapTextList, List.cons.injEq, Expr.textsList, List.forall_mem_append,
        ih e List.mem_cons_self, ihes fun x hx => ih x (List.mem_cons_of_mem e hx)]
  induction e with
  | var | bool | number => simp [mapText, texts]
  | text mark value => simp [mapText, texts]
  | array mark elements ih => simp only [mapText, texts, array.injEq, true_and, hlist elements ih]
  | binary mark op left right ihl ihr =>
    simp only [mapText, texts, binary.injEq, true_and, List.forall_mem_append, ihl, ihr]
  | call mark name args ih => simp only [mapText, texts, call.injEq, true_and, hlist args ih]
  | index mark object place iho ihp =>
    simp only [mapText, texts, index.injEq, true_and, List.forall_mem_append, iho, ihp]
  | member mark object property iho =>
    simp only [mapText, texts, member.injEq, true_and, and_true, iho]
  | method mark object name args iho ih =>
    simp only [mapText, texts, method.injEq, true_and, List.forall_mem_append, iho, hlist args ih]

theorem Clause.mapText_eq_self_iff (c : Clause α) :
    c.mapText g = c ↔ ∀ v ∈ c.texts, g v = v := by
  cases c with
  | assign mark name value =>
    simp only [mapText, texts, assign.injEq, true_and, Expr.mapText_eq_self_iff]
  | ret mark value => simp only [mapText, texts, ret.injEq, true_and, Expr.mapText_eq_self_iff]

theorem map_eq_self_iff_flatMap {β : Type} {k : β → β} {texts : β → List Bytes}
    (h : ∀ b, k b = b ↔ ∀ v ∈ texts b, g v = v) (bs : List β) :
    bs.map k = bs ↔ ∀ v ∈ bs.flatMap texts, g v = v := by
  induction bs with
  | nil => simp
  | cons b bs ih =>
    rw [List.map_cons, List.cons.injEq, List.flatMap_cons, List.forall_mem_append, h, ih]

theorem Stmt.mapText_eq_self_iff (s : Stmt α) : s.mapText g = s ↔ ∀ v ∈ s.texts, g v = v := by
  have hbody := map_eq_self_iff_flatMap (Clause.mapText_eq_self_iff (α := α) (g := g))
  cases s with
  | clause c => simp only [mapText, texts, clause.injEq, Clause.mapText_eq_self_iff]
  | func name f =>
    obtain ⟨mark, params, body⟩ := f
    simp only [mapText, texts, func.injEq, Func.mk.injEq, true_and, hbody]
  | cond mark condition body =>
    simp only [mapText, texts, cond.injEq, true_and, List.forall_mem_append,
      Expr.mapText_eq_self_iff, hbody]
  | loop mark condition body =>
    simp only [mapText, texts, loop.injEq, true_and, List.forall_mem_append,
      Expr.mapText_eq_self_iff, hbody]

end Same

section WellFormed

variable {g : Bytes → Bytes}

theorem Expr.mapTextList_eq_map (es : List (Expr α)) :
    Expr.mapTextList g es = es.map (Expr.mapText g) := by
  induction es with
  | nil => rfl
  | cons e es ih => rw [Expr.mapTextList, ih, List.map_cons]

/-- How tightly an expression binds does not depend on its texts. -/
theorem Expr.level_mapText (e : Expr α) : (e.mapText g).level = e.level := by
  cases e <;> rfl

theorem Expr.isPrimary_mapText {e : Expr α} : (e.mapText g).IsPrimary ↔ e.IsPrimary := by
  cases e <;> exact Iff.rfl

/-- How deep its brackets are does not depend on them either. -/
theorem Expr.nesting_mapText (e : Expr α) : (e.mapText g).nesting = e.nesting := by
  have hlist : ∀ es : List (Expr α), (∀ e ∈ es, (e.mapText g).nesting = e.nesting) →
      Expr.nestingList (Expr.mapTextList g es) = Expr.nestingList es := by
    intro es ih
    induction es with
    | nil => rfl
    | cons e es ihes =>
      rw [Expr.mapTextList, Expr.nestingList, Expr.nestingList, ih e List.mem_cons_self,
        ihes fun e' he' => ih e' (List.mem_cons_of_mem e he')]
  induction e with
  | var | bool | number | text => rfl
  | array mark elements ih => simp only [mapText, nesting, hlist elements ih]
  | binary mark op left right ihl ihr => simp only [mapText, nesting, ihl, ihr]
  | call mark name args ih => simp only [mapText, nesting, hlist args ih]
  | index mark object place iho ihp => simp only [mapText, nesting, iho, ihp]
  | member mark object property iho => simp only [mapText, nesting, iho]
  | method mark object name args iho ih => simp only [mapText, nesting, iho, hlist args ih]

variable (hg : ∀ v, Bytes.doubleQuote ∉ v → Bytes.doubleQuote ∉ g v)

include hg

/-- An expression that the grammar can build stays one with other texts. The change must not bring
in a quote. -/
theorem Expr.WellFormed.mapText {e : Expr α} (h : e.WellFormed) : (e.mapText g).WellFormed := by
  have hlist : ∀ es : List (Expr α), (∀ e ∈ es, e.WellFormed → (e.mapText g).WellFormed) →
      Expr.AllWellFormed es → Expr.AllWellFormed (Expr.mapTextList g es) := by
    intro es ih hes
    rw [Expr.allWellFormed_iff] at hes ⊢
    rw [Expr.mapTextList_eq_map, List.forall_mem_map]
    exact fun e he => ih e he (hes e he)
  induction e with
  | var | bool | number => exact h
  | text mark value => exact hg value h
  | array mark elements ih => exact hlist elements ih h
  | binary mark op left right ihl ihr =>
    obtain ⟨hl, hr, hleft, hright⟩ := h
    rw [← left.level_mapText (g := g)] at hl
    rw [← right.level_mapText (g := g)] at hr
    exact ⟨hl, hr, ihl hleft, ihr hright⟩
  | call mark name args ih => exact ⟨h.1, hlist args ih h.2⟩
  | index mark object place iho ihp =>
    exact ⟨Expr.isPrimary_mapText.2 h.1, iho h.2.1, ihp h.2.2⟩
  | member mark object property iho =>
    exact ⟨Expr.isPrimary_mapText.2 h.1, iho h.2.1, h.2.2⟩
  | method mark object name args iho ih =>
    exact ⟨Expr.isPrimary_mapText.2 h.1, iho h.2.1, h.2.2.1, hlist args ih h.2.2.2⟩

theorem Clause.WellFormed.mapText {c : Clause α} (h : c.WellFormed) :
    (c.mapText g).WellFormed := by
  cases c with
  | assign mark name value =>
    exact ⟨h.1, h.2.1.mapText hg, (value.nesting_mapText (g := g)).symm ▸ h.2.2⟩
  | ret mark value => exact ⟨h.1.mapText hg, (value.nesting_mapText (g := g)).symm ▸ h.2⟩

theorem Stmt.WellFormed.mapText {s : Stmt α} (h : s.WellFormed) : (s.mapText g).WellFormed := by
  have hbody : ∀ body : List (Clause α), (∀ c ∈ body, c.WellFormed) →
      ∀ c ∈ body.map (Clause.mapText g), c.WellFormed := by
    intro body hwf
    rw [List.forall_mem_map]
    exact fun c hc => (hwf c hc).mapText hg
  cases s with
  | clause c => exact Clause.WellFormed.mapText hg h
  | func name f => exact ⟨h.1, h.2.1, hbody f.body h.2.2⟩
  | cond mark condition body | loop mark condition body =>
    exact ⟨h.1.mapText hg, (condition.nesting_mapText (g := g)).symm ▸ h.2.1, hbody body h.2.2⟩

theorem Script.WellFormed.mapText {P : List (Stmt α)} (h : Script.WellFormed P) :
    Script.WellFormed (P.map (Stmt.mapText g)) := by
  refine ⟨fun hnil => h.1 (List.map_eq_nil_iff.1 hnil), ?_⟩
  rw [List.forall_mem_map]
  exact fun s hs => (h.2 s hs).mapText hg

end WellFormed

namespace Layout

/-! ### Solid pieces of a spelling -/

theorem isSolid_of_isNameByte {b : UInt8} (h : Bytes.isNameByte b = true) : isSolid b = true := by
  refine isSolid_iff.2 ⟨?_, ?_, ?_, ?_⟩ <;>
  · rintro rfl
    exact absurd h (by decide)

theorem isSolid_of_isDigit {b : UInt8} (h : Bytes.isDigit b = true) : isSolid b = true := by
  refine isSolid_iff.2 ⟨?_, ?_, ?_, ?_⟩ <;>
  · rintro rfl
    exact absurd h (by decide)

/-- A name is solid throughout, so its ends are. -/
theorem sturdy_of_isName {name : Bytes} (h : IsName name) : Sturdy name :=
  sturdy_of_forall h.1 fun b hb => isSolid_of_isNameByte (h.2 b hb)

theorem reflow_of_isName {name : Bytes} (h : IsName name) : reflow name = name :=
  reflow_of_solid fun b hb => isSolid_of_isNameByte (h.2 b hb)

/-- A piece between two others that are solid towards it. -/
theorem reflow_between {a c : Bytes} (ha : EndsSolid a) (u : Bytes) (hc : BeginsSolid c) :
    reflow (a ++ u ++ c) = reflow a ++ reflow u ++ reflow c := by
  rw [reflow_append (Or.inr hc), reflow_append (Or.inl ha)]

/-- Items with a separator before each are reflowed one by one, when nothing happens to the
separator. -/
theorem reflow_flatMap {sep : Bytes} (hsep : reflow sep = sep) {us : List Bytes}
    (hus : ∀ u ∈ us, Sturdy u) :
    reflow (us.flatMap (sep ++ ·)) = (us.map reflow).flatMap (sep ++ ·) := by
  induction us with
  | nil => rfl
  | cons u us ih =>
    have hu := hus u List.mem_cons_self
    rw [List.flatMap_cons, reflow_append (Or.inl (hu.ends.append sep)),
      reflow_append (Or.inr hu.begins), hsep, ih fun v hv => hus v (List.mem_cons_of_mem u hv),
      List.map_cons, List.flatMap_cons]

/-- A text that ends in a solid byte still does so with sturdy items behind it. -/
theorem endsSolid_flatMap {sep u : Bytes} (hu : EndsSolid u) {us : List Bytes}
    (hus : ∀ u ∈ us, Sturdy u) : EndsSolid (u ++ us.flatMap (sep ++ ·)) := by
  rcases List.eq_nil_or_concat' us with rfl | ⟨vs, v, rfl⟩
  · simpa using hu
  · have hv := (hus v (List.mem_append_right vs List.mem_cons_self)).ends
    rw [List.flatMap_append, List.flatMap_singleton]
    exact ((hv.append sep).append _).append u

/-- **Sturdy pieces with a separator between them** are reflowed one by one. -/
theorem reflow_join {sep : Bytes} (hsep : reflow sep = sep) {us : List Bytes}
    (hus : ∀ u ∈ us, Sturdy u) : reflow (Bytes.join sep us) = Bytes.join sep (us.map reflow) := by
  cases us with
  | nil => rfl
  | cons u us =>
    have hu := hus u List.mem_cons_self
    rw [Bytes.join_cons, reflow_append (Or.inl hu.ends),
      reflow_flatMap hsep fun v hv => hus v (List.mem_cons_of_mem u hv), List.map_cons,
      Bytes.join_cons]

end Layout

open Layout

/-! ### Spellings, reflowed -/

/-- Nothing happens to an operator: there is one blank on either side of it. -/
theorem Operator.reflow_spaced (op : Operator) : reflow op.spaced = op.spaced := by
  cases op <;> decide

theorem sturdy_leftParen : Sturdy (Bytes.ofString "(") :=
  sturdy_of_forall (by decide) (List.all_eq_true.1 rfl)

theorem sturdy_rightParen : Sturdy (Bytes.ofString ")") :=
  sturdy_of_forall (by decide) (List.all_eq_true.1 rfl)

theorem sturdy_leftBracket : Sturdy (Bytes.ofString "[") :=
  sturdy_of_forall (by decide) (List.all_eq_true.1 rfl)

theorem sturdy_rightBracket : Sturdy (Bytes.ofString "]") :=
  sturdy_of_forall (by decide) (List.all_eq_true.1 rfl)

/-- **A spelling of an expression, reflowed, spells it with its texts reflowed.** -/
theorem Expr.spells_reflow {e : Expr α} {t : Bytes} (hwf : e.WellFormed) (h : e.Spells t) :
    Sturdy t ∧ (e.mapText reflow).Spells (reflow t) := by
  -- items of an array and arguments of a call are spelled one by one
  have hlist : ∀ es : List (Expr α), (∀ e ∈ es, ∀ t, e.WellFormed → e.Spells t →
      Sturdy t ∧ (e.mapText reflow).Spells (reflow t)) → Expr.AllWellFormed es →
      ∀ us, Expr.SpellsAll es us →
        (∀ u ∈ us, Sturdy u) ∧ Expr.SpellsAll (Expr.mapTextList reflow es) (us.map reflow) := by
    intro es
    induction es with
    | nil =>
      rintro - - us rfl
      exact ⟨fun u hu => (by cases hu), rfl⟩
    | cons e es ihes =>
      rintro ih ⟨he, hes⟩ _ ⟨u, us, rfl, hu, hus⟩
      obtain ⟨hsturdy, hspells⟩ := ih e List.mem_cons_self u he hu
      obtain ⟨hall, hrest⟩ := ihes (fun x hx => ih x (List.mem_cons_of_mem e hx)) hes us hus
      exact ⟨List.forall_mem_cons.2 ⟨hsturdy, hall⟩, reflow u, us.map reflow, rfl, hspells, hrest⟩
  have hcomma : reflow (Bytes.ofString ", ") = Bytes.ofString ", " := by decide
  induction e generalizing t with
  | var mark name =>
    obtain rfl : t = name := h
    exact ⟨sturdy_of_isName hwf.1, reflow_of_isName hwf.1⟩
  | bool mark value =>
    obtain rfl := h
    cases value
    · exact ⟨sturdy_of_forall (by decide) (List.all_eq_true.1 rfl), rfl⟩
    · exact ⟨sturdy_of_forall (by decide) (List.all_eq_true.1 rfl), rfl⟩
  | number mark x =>
    have hsolid : ∀ b ∈ t, isSolid b = true := fun b hb => isSolid_of_isDigit (h.2.1 b hb)
    refine ⟨sturdy_of_forall h.1 hsolid, ?_⟩
    rw [reflow_of_solid hsolid]
    exact h
  | text mark value =>
    obtain rfl := h
    -- between the quotes anything may stand; it is reflowed as a piece of its own
    have hquote : Sturdy [Bytes.doubleQuote] :=
      sturdy_of_forall (by decide) (List.all_eq_true.1 rfl)
    refine ⟨.append (hquote.begins.append value) hquote.ends, ?_⟩
    exact reflow_between hquote.ends value hquote.begins
  | array mark elements ih =>
    obtain ⟨us, hus, rfl⟩ := h
    obtain ⟨hall, hspells⟩ := hlist elements (fun e he t => ih e he) hwf us hus
    refine ⟨.append (sturdy_leftBracket.begins.append _) sturdy_rightBracket.ends,
      us.map reflow, hspells, ?_⟩
    rw [reflow_between sturdy_leftBracket.ends _ sturdy_rightBracket.begins,
      reflow_join hcomma hall]
    rfl
  | binary mark op left right ihl ihr =>
    obtain ⟨u, v, hu, hv, rfl⟩ := h
    obtain ⟨hsu, hu'⟩ := ihl hwf.2.2.1 hu
    obtain ⟨hsv, hv'⟩ := ihr hwf.2.2.2 hv
    refine ⟨.append (hsu.begins.append _) hsv.ends, reflow u, reflow v, hu', hv', ?_⟩
    rw [reflow_between hsu.ends _ hsv.begins, op.reflow_spaced]
  | call mark name args ih =>
    obtain ⟨us, hus, rfl⟩ := h
    obtain ⟨hall, hspells⟩ := hlist args (fun e he t => ih e he) hwf.2 us hus
    have hname := sturdy_of_isName hwf.1
    refine ⟨.append ((hname.begins.append _).append _) sturdy_rightParen.ends,
      us.map reflow, hspells, ?_⟩
    rw [reflow_between (sturdy_leftParen.ends.append _) _ sturdy_rightParen.begins,
      reflow_append (Or.inl hname.ends), reflow_join hcomma hall, reflow_of_isName hwf.1]
    rfl
  | index mark object place iho ihp =>
    obtain ⟨u, v, hu, hv, rfl⟩ := h
    obtain ⟨hsu, hu'⟩ := iho hwf.2.1 hu
    obtain ⟨hsv, hv'⟩ := ihp hwf.2.2 hv
    refine ⟨.append ((hsu.begins.append _).append _) sturdy_rightBracket.ends,
      reflow u, reflow v, hu', hv', ?_⟩
    rw [reflow_between (sturdy_leftBracket.ends.append _) _ sturdy_rightBracket.begins,
      reflow_append (Or.inl hsu.ends)]
    rfl
  | member mark object property iho =>
    obtain ⟨u, hu, rfl⟩ := h
    obtain ⟨hsu, hu'⟩ := iho hwf.2.1 hu
    have hname := sturdy_of_isName hwf.2.2
    refine ⟨.append (hsu.begins.append _) hname.ends, reflow u, hu', ?_⟩
    rw [reflow_between hsu.ends _ hname.begins, reflow_of_isName hwf.2.2]
    rfl
  | method mark object name args iho ih =>
    obtain ⟨u, us, hu, hus, rfl⟩ := h
    obtain ⟨hsu, hu'⟩ := iho hwf.2.1 hu
    obtain ⟨hall, hspells⟩ := hlist args (fun e he t => ih e he) hwf.2.2.2 us hus
    have hname := sturdy_of_isName hwf.2.2.1
    refine ⟨.append ((((hsu.begins.append _).append _).append _).append _) sturdy_rightParen.ends,
      reflow u, us.map reflow, hu', hspells, ?_⟩
    rw [reflow_between (sturdy_leftParen.ends.append _) _ sturdy_rightParen.begins,
      reflow_append (Or.inl (hname.ends.append _)), reflow_between hsu.ends _ hname.begins,
      reflow_join hcomma hall, reflow_of_isName hwf.2.2.1]
    rfl

/-- **A spelling of a clause, reflowed, spells it with its texts reflowed.** -/
theorem Clause.spells_reflow {c : Clause α} {t : Bytes} (hwf : c.WellFormed) (h : c.Spells t) :
    Sturdy t ∧ (c.mapText reflow).Spells (reflow t) := by
  cases c with
  | assign mark name value =>
    obtain ⟨u, hu, rfl⟩ := h
    obtain ⟨hsu, hu'⟩ := Expr.spells_reflow hwf.2.1 hu
    have hname := sturdy_of_isName hwf.1
    refine ⟨.append (hname.begins.append _) hsu.ends, reflow u, hu', ?_⟩
    rw [reflow_between hname.ends _ hsu.begins, reflow_of_isName hwf.1]
    rfl
  | ret mark value =>
    obtain ⟨u, hu, rfl⟩ := h
    obtain ⟨hsu, hu'⟩ := Expr.spells_reflow hwf.1 hu
    have hword : BeginsSolid (Bytes.ofString "return ") := ⟨_, _, rfl, by decide⟩
    refine ⟨.append hword hsu.ends, reflow u, hu', ?_⟩
    rw [reflow_append (Or.inr hsu.begins)]
    rfl

/-- The lines of a body, reflowed, after something that ends in a solid byte. -/
theorem Clause.spells_reflow_indented {cs : List (Clause α)} {us : List Bytes}
    (hwf : ∀ c ∈ cs, c.WellFormed) (h : List.Forall₂ Clause.Spells cs us) {u : Bytes}
    (hu : EndsSolid u) :
    EndsSolid (u ++ indented us) ∧
      reflow (u ++ indented us) = reflow u ++ indented (us.map reflow) ∧
      List.Forall₂ Clause.Spells (cs.map (Clause.mapText reflow)) (us.map reflow) := by
  have hall : (∀ v ∈ us, Sturdy v) ∧
      List.Forall₂ Clause.Spells (cs.map (Clause.mapText reflow)) (us.map reflow) := by
    induction h with
    | nil => exact ⟨fun v hv => (by cases hv), .nil⟩
    | @cons c v cs us hc _ ih =>
      obtain ⟨hs, hspells⟩ := Clause.spells_reflow (hwf c List.mem_cons_self) hc
      obtain ⟨hall, hrest⟩ := ih fun c' hc' => hwf c' (List.mem_cons_of_mem c hc')
      exact ⟨List.forall_mem_cons.2 ⟨hs, hall⟩, .cons hspells hrest⟩
  -- a line begins and ends in a solid byte, so what stands between two lines is reflowed apart
  refine ⟨endsSolid_flatMap hu hall.1, ?_, hall.2⟩
  rw [reflow_append (Or.inl hu), indented, reflow_flatMap (by decide) hall.1]
  rfl

/-- **A spelling of a statement, reflowed, spells it with its texts reflowed.** The bodies of
statements are indented by four blanks, which reflowing leaves. -/
theorem Stmt.spells_reflow {s : Stmt α} {t : Bytes} (hwf : s.WellFormed) (h : s.Spells t) :
    Sturdy t ∧ (s.mapText reflow).Spells (reflow t) := by
  cases s with
  | clause c => exact Clause.spells_reflow hwf h
  | func name f =>
    obtain ⟨us, hus, rfl⟩ := h
    have hname := sturdy_of_isName hwf.1
    have hword : BeginsSolid (Bytes.ofString "func ") := ⟨_, _, rfl, by decide⟩
    have hparams : f.params.map reflow = f.params :=
      (List.map_congr_left fun p hp => reflow_of_isName (hwf.2.1 p hp)).trans (List.map_id _)
    -- the head of a statement ends in a solid byte, and its body comes after that
    obtain ⟨hends, hreflow, hspells⟩ := Clause.spells_reflow_indented hwf.2.2 hus
      (sturdy_rightParen.ends.append (Bytes.ofString "func " ++ name ++ Bytes.ofString "(" ++
        Bytes.join (Bytes.ofString ", ") f.params))
    refine ⟨⟨((((hword.append _).append _).append _).append _).append _, hends⟩,
      us.map reflow, hspells, ?_⟩
    rw [hreflow, reflow_between (sturdy_leftParen.ends.append _) _ sturdy_rightParen.begins,
      reflow_append (Or.inl (hname.ends.append _)), reflow_append (Or.inr hname.begins),
      reflow_join (by decide) fun p hp => sturdy_of_isName (hwf.2.1 p hp), hparams,
      reflow_of_isName hwf.1]
    rfl
  | cond mark condition body =>
    obtain ⟨u, us, hu, hus, rfl⟩ := h
    obtain ⟨hsu, hu'⟩ := Expr.spells_reflow hwf.1 hu
    have hword : BeginsSolid (Bytes.ofString "if ") := ⟨_, _, rfl, by decide⟩
    obtain ⟨hends, hreflow, hspells⟩ := Clause.spells_reflow_indented hwf.2.2 hus
      (hsu.ends.append (Bytes.ofString "if "))
    refine ⟨⟨(hword.append _).append _, hends⟩, reflow u, us.map reflow, hu', hspells, ?_⟩
    rw [hreflow, reflow_append (Or.inr hsu.begins)]
    rfl
  | loop mark condition body =>
    obtain ⟨u, us, hu, hus, rfl⟩ := h
    obtain ⟨hsu, hu'⟩ := Expr.spells_reflow hwf.1 hu
    have hword : BeginsSolid (Bytes.ofString "while ") := ⟨_, _, rfl, by decide⟩
    obtain ⟨hends, hreflow, hspells⟩ := Clause.spells_reflow_indented hwf.2.2 hus
      (hsu.ends.append (Bytes.ofString "while "))
    refine ⟨⟨(hword.append _).append _, hends⟩, reflow u, us.map reflow, hu', hspells, ?_⟩
    rw [hreflow, reflow_append (Or.inr hsu.begins)]
    rfl

/-- **A spelling of a script, reflowed, spells it with its texts reflowed.** -/
theorem Script.spells_reflow {P : List (Stmt α)} {t : Bytes} (hwf : Script.WellFormed P)
    (h : Script.Spells P t) :
    Sturdy t ∧ Script.Spells (P.map (Stmt.mapText reflow)) (reflow t) := by
  obtain ⟨us, hus, rfl⟩ := h
  have hall : (∀ u ∈ us, Sturdy u) ∧
      List.Forall₂ Stmt.Spells (P.map (Stmt.mapText reflow)) (us.map reflow) := by
    have hstmts := hwf.2
    clear hwf
    induction hus with
    | nil => exact ⟨fun u hu => (by cases hu), .nil⟩
    | @cons s u P us hs _ ih =>
      obtain ⟨hsturdy, hspells⟩ := Stmt.spells_reflow (hstmts s List.mem_cons_self) hs
      obtain ⟨hall, hrest⟩ := ih fun s' hs' => hstmts s' (List.mem_cons_of_mem s hs')
      exact ⟨List.forall_mem_cons.2 ⟨hsturdy, hall⟩, .cons hspells hrest⟩
  refine ⟨?_, us.map reflow, hall.2, reflow_join (by decide) hall.1⟩
  cases hus with
  | nil => exact absurd rfl hwf.1
  | @cons s u P us hs _ =>
    obtain ⟨hu, hrest⟩ := List.forall_mem_cons.1 hall.1
    rw [Bytes.join_cons]
    exact ⟨hu.begins.append _, endsSolid_flatMap hu.ends hrest⟩

/-! ### Formatted scripts -/

/-- Formatting a source that spells a script is reflowing it. -/
theorem dropFinalNewline_format {P : List (Stmt α)} {source : Bytes} (hwf : Script.WellFormed P)
    (h : Script.Spells P (Bytes.dropFinalNewline source)) :
    Bytes.dropFinalNewline (format source) = reflow (Bytes.dropFinalNewline source) := by
  obtain ⟨hsturdy, -⟩ := Script.spells_reflow hwf h
  have hformat : format source = format (Bytes.dropFinalNewline source) := by
    rcases Bytes.eq_or_eq_dropFinalNewline source with heq | heq
    · rw [← heq]
    · exact (congrArg format heq).trans (format_append_newline hsturdy.ends)
  rw [hformat, format_of_sturdy hsturdy, Bytes.dropFinalNewline_append]

/-- A formatted script is read again, as the script with its texts reflowed. -/
theorem exists_parse_format {source : Bytes} {P : List (Stmt Unit)} (hwf : Script.WellFormed P)
    (h : Script.Spells P (Bytes.dropFinalNewline source)) :
    ∃ script, parse (Bytes.dropFinalNewline (format source)) = .ok script ∧
      script.statements.map Stmt.bare = P.map (Stmt.mapText reflow) := by
  rw [dropFinalNewline_format hwf h]
  refine exists_parse_of_spells (hwf.mapText fun v hv hmem => hv ?_) (Script.spells_reflow hwf h).2
  exact mem_of_mem_reflow (by decide) (by decide) hmem

/-- **Formatting a script reflows its texts and changes nothing else.** What parses without its last
line feed still does when it is formatted, and to the same statements, positions aside, with every
text reflowed. So they are the same statements if and only if reflowing leaves every text as it
is, and a text without line ends it does. -/
theorem parse_format {source : Bytes} {script : Script}
    (h : parse (Bytes.dropFinalNewline source) = .ok script) :
    ∃ formatted, parse (Bytes.dropFinalNewline (format source)) = .ok formatted ∧
      formatted.statements.map Stmt.bare =
        (script.statements.map Stmt.bare).map (Stmt.mapText reflow) ∧
      (formatted.statements.map Stmt.bare = script.statements.map Stmt.bare ↔
        ∀ v ∈ (script.statements.map Stmt.bare).flatMap Stmt.texts, reflow v = v) ∧
      ∀ v : Bytes, Bytes.newline ∉ v → Bytes.carriageReturn ∉ v → reflow v = v := by
  obtain ⟨hwf, hspells⟩ := spells_of_parse h
  obtain ⟨formatted, hparse, hbare⟩ := exists_parse_format hwf hspells
  refine ⟨formatted, hparse, hbare, ?_, fun v hline hreturn => ?_⟩
  · rw [hbare]
    exact map_eq_self_iff_flatMap Stmt.mapText_eq_self_iff _
  · refine reflow_of_forall fun b hb => ⟨?_, ?_⟩
    · rintro rfl
      exact hline hb
    · rintro rfl
      exact hreturn hb

/-- A source with a text of two lines, the first of which ends in a blank. -/
def twoLineText : Bytes := Bytes.ofString "a = \"x \ny\"\n"

/-- Its script. -/
def twoLineScript : List (Stmt Unit) :=
  [.clause (.assign () (Bytes.ofString "a") (.text () (Bytes.ofString "x \ny")))]

theorem spells_twoLineText :
    Script.WellFormed twoLineScript ∧
      Script.Spells twoLineScript (Bytes.dropFinalNewline twoLineText) := by
  refine ⟨⟨List.cons_ne_nil _ _, ?_⟩, [Bytes.dropFinalNewline twoLineText], ?_, rfl⟩
  · rintro s (_ | ⟨_, ⟨⟩⟩)
    have hquote : Bytes.doubleQuote ∉ Bytes.ofString "x \ny" := by decide
    exact ⟨⟨by decide, List.all_eq_true.1 rfl⟩, hquote, Nat.zero_le _⟩
  · exact .cons ⟨_, rfl, rfl⟩ .nil

/-- **Formatting does not leave every text as it is.** This one loses its blank. -/
theorem format_changes_text :
    ∃ script formatted, parse (Bytes.dropFinalNewline twoLineText) = .ok script ∧
      parse (Bytes.dropFinalNewline (format twoLineText)) = .ok formatted ∧
      script.statements.map Stmt.bare = twoLineScript ∧
      formatted.statements.map Stmt.bare =
        [.clause (.assign () (Bytes.ofString "a") (.text () (Bytes.ofString "x\ny")))] ∧
      formatted.statements.map Stmt.bare ≠ script.statements.map Stmt.bare := by
  obtain ⟨hwf, hspells⟩ := spells_twoLineText
  obtain ⟨script, hparse, hbare⟩ := exists_parse_of_spells hwf hspells
  obtain ⟨formatted, hparse', hbare', -, -⟩ := parse_format hparse
  rw [hbare] at hbare'
  refine ⟨script, formatted, hparse, hparse', hbare, hbare', ?_⟩
  rw [hbare, hbare']
  intro heq
  have hvalue : reflow (Bytes.ofString "x \ny") = Bytes.ofString "x \ny" := by
    simpa [twoLineScript, Stmt.mapText, Clause.mapText, Expr.mapText] using heq
  exact absurd hvalue (by decide)

end Scriptlet
