import Scriptlet.Proofs.Parsing.Footholds
import Scriptlet.Proofs.Text.Positions

/-!
# Scripts one below the other

Parsing goes by lines. Two sources that parse also do so when one is put below the other, with
a line feed between them, and they are read as what each is read as by itself; only the positions of
the lower one come down by the lines of the upper one. And a source that parses can be taken apart
between any two of its statements. No text at the end of the upper source reads on into the
lower one, no attempt that failed there succeeds with more text behind it, and no position in it
depends on what follows.

All this is about spellings, since the parser reads exactly the spellings of well-formed
scripts. The spellings of two lists of statements are those of both with a line feed between them,
for bare trees (`Script.Spells.append`, `Script.Spells.exists_append`) as for trees marked
with offsets, where the offsets of the lower one grow by what is above it
(`Script.SpellsAt.below`). What is left are the positions of these offsets.
-/

namespace Scriptlet

/-! ### Bare statements -/

theorem Bytes.join_append (sep : Bytes) {us vs : List Bytes} (hus : us ≠ []) (hvs : vs ≠ []) :
    Bytes.join sep (us ++ vs) = Bytes.join sep us ++ sep ++ Bytes.join sep vs := by
  obtain ⟨u, us, rfl⟩ := List.exists_cons_of_ne_nil hus
  obtain ⟨v, vs, rfl⟩ := List.exists_cons_of_ne_nil hvs
  rw [List.cons_append, Bytes.join_cons, Bytes.join_cons, Bytes.join_cons, List.flatMap_append,
    List.flatMap_cons]
  simp only [List.append_assoc]

section Bare

variable {P Q : List (Stmt Unit)}

theorem ne_nil_of_spells {us : List Bytes} (hP : P ≠ []) (h : List.Forall₂ Stmt.Spells P us) :
    us ≠ [] := by
  rintro rfl
  exact hP (List.forall₂_nil_right_iff.1 h)

/-- Spellings one below the other spell all the statements. -/
theorem Script.Spells.append {s t : Bytes} (hP : P ≠ []) (hQ : Q ≠ [])
    (hs : Script.Spells P s) (ht : Script.Spells Q t) :
    Script.Spells (P ++ Q) (s ++ Bytes.ofString "\n" ++ t) := by
  obtain ⟨us, hus, rfl⟩ := hs
  obtain ⟨vs, hvs, rfl⟩ := ht
  refine ⟨us ++ vs, List.rel_append hus hvs, ?_⟩
  rw [Bytes.join_append _ (ne_nil_of_spells hP hus) (ne_nil_of_spells hQ hvs)]

/-- A spelling of two lists of statements is made of one of each. -/
theorem Script.Spells.exists_append {s : Bytes} (hP : P ≠ []) (hQ : Q ≠ [])
    (h : Script.Spells (P ++ Q) s) : ∃ upper lower, s = upper ++ Bytes.newline :: lower ∧
      Script.Spells P upper ∧ Script.Spells Q lower := by
  obtain ⟨us, hus, rfl⟩ := h
  have hP' := List.forall₂_take_append us P Q hus.flip
  have hQ' := List.forall₂_drop_append us P Q hus.flip
  refine ⟨_, _, ?_, ⟨_, hP'.flip, rfl⟩, ⟨_, hQ'.flip, rfl⟩⟩
  conv_lhs => rw [← List.take_append_drop P.length us]
  rw [Bytes.join_append _ (ne_nil_of_spells hP hP'.flip) (ne_nil_of_spells hQ hQ'.flip),
    List.append_assoc]
  rfl

variable {α : Type} {P Q : List (Stmt α)}

theorem Script.WellFormed.append (hP : Script.WellFormed P) (hQ : Script.WellFormed Q) :
    Script.WellFormed (P ++ Q) := by
  refine ⟨fun h => hP.1 (List.append_eq_nil_iff.1 h).1, fun s hs => ?_⟩
  rcases List.mem_append.1 hs with hs | hs
  · exact hP.2 s hs
  · exact hQ.2 s hs

/-- Two scripts in a row are well formed when each of them is. -/
theorem Script.WellFormed.of_append (h : Script.WellFormed (P ++ Q)) (hP : P ≠ []) (hQ : Q ≠ []) :
    Script.WellFormed P ∧ Script.WellFormed Q :=
  ⟨⟨hP, fun s hs => h.2 s (List.mem_append_left Q hs)⟩,
    ⟨hQ, fun s hs => h.2 s (List.mem_append_right P hs)⟩⟩

end Bare

/-! ### Items one after another -/

namespace Parser

variable {α β : Type} {R : Nat → α → Bytes → Prop} {Q : Nat → β → Bytes → Prop} {f : α → β}
  {sep t u : Bytes} {as bs : List α} {o d : Nat}

/-- Items and more items behind them, from the offset where the first end. -/
theorem EachAt.append (h : EachAt R o as t) (h' : EachAt R (o + t.length) bs u) :
    EachAt R o (as ++ bs) (t ++ u) := by
  induction as generalizing o t with
  | nil =>
    obtain rfl : t = [] := h
    exact h'
  | cons a as ih =>
    obtain ⟨t₁, t₂, rfl, hR, hE⟩ := h
    rw [List.length_append, ← Nat.add_assoc] at h'
    exact ⟨t₁, t₂ ++ u, List.append_assoc _ _ _, hR, ih hE h'⟩

/-- Items, what stands between neighbours, and items again. -/
theorem ItemsAt.append (h : ItemsAt sep R o as t)
    (h' : ItemsAt sep R (o + t.length + sep.length) bs u) (has : as ≠ []) (hbs : bs ≠ []) :
    ItemsAt sep R o (as ++ bs) (t ++ (sep ++ u)) := by
  obtain ⟨a, as, rfl⟩ := List.exists_cons_of_ne_nil has
  obtain ⟨b, bs, rfl⟩ := List.exists_cons_of_ne_nil hbs
  obtain ⟨t₁, t₂, rfl, hR, hE⟩ := h
  obtain ⟨u₁, u₂, rfl, hR', hE'⟩ := h'
  refine ⟨t₁, t₂ ++ (sep ++ (u₁ ++ u₂)), List.append_assoc _ _ _, hR, hE.append ?_⟩
  refine ⟨sep ++ u₁, u₂, by rw [List.append_assoc], ⟨u₁, rfl, ?_⟩, ?_⟩
  · rwa [List.length_append, ← Nat.add_assoc] at hR'
  · simpa only [List.length_append, Nat.add_assoc] using hE'

/-- The same items further on. -/
theorem EachAt.shift (hE : EachAt R o as t)
    (h : ∀ a ∈ as, ∀ {o t}, R o a t → Q (d + o) (f a) t) : EachAt Q (d + o) (as.map f) t := by
  induction as generalizing o t with
  | nil => exact hE
  | cons a as ih =>
    obtain ⟨t₁, t₂, rfl, hR, hE⟩ := hE
    refine ⟨t₁, t₂, rfl, h a List.mem_cons_self hR, ?_⟩
    rw [Nat.add_assoc]
    exact ih hE fun a' ha' => h a' (List.mem_cons_of_mem a ha')

theorem After.shift {a : α} (hA : After sep R o a t)
    (h : ∀ {o t}, R o a t → Q (d + o) (f a) t) : After sep Q (d + o) (f a) t := by
  obtain ⟨u, rfl, hR⟩ := hA
  exact ⟨u, rfl, Nat.add_assoc d o sep.length ▸ h hR⟩

/-- Items moved by some offset are marked further on by as much. -/
theorem ItemsAt.shift (hI : ItemsAt sep R o as t)
    (h : ∀ a ∈ as, ∀ {o t}, R o a t → Q (d + o) (f a) t) :
    ItemsAt sep Q (d + o) (as.map f) t := by
  cases as with
  | nil => exact hI
  | cons a as =>
    obtain ⟨t₁, t₂, rfl, hR, hE⟩ := hI
    refine ⟨t₁, t₂, rfl, h a List.mem_cons_self hR, ?_⟩
    rw [Nat.add_assoc]
    exact hE.shift fun a' ha' _ _ hA => hA.shift (h a' (List.mem_cons_of_mem a ha'))

end Parser

/-! ### Trees further on -/

section Shift

variable {o : Nat} {t : Bytes} (d : Nat)

/-- An expression that is spelled further on is marked with offsets further on. -/
theorem Expr.SpellsAt.shift {e : Expr Nat} (h : e.SpellsAt o t) :
    (e.map (d + ·)).SpellsAt (d + o) t := by
  -- items keep their distances, so they are shifted together
  have hlist : ∀ {es : List (Expr Nat)} {o : Nat} {t : Bytes},
      (∀ e ∈ es, ∀ {o t}, e.SpellsAt o t → (e.map (d + ·)).SpellsAt (d + o) t) →
      Expr.ItemsSpellAt o es t → Expr.ItemsSpellAt (d + o) (Expr.mapList (d + ·) es) t := by
    intro es o t ih hI
    rw [Expr.itemsSpellAt_iff] at hI ⊢
    rw [Expr.mapList_eq_map]
    exact hI.shift ih
  induction e generalizing o t with
  | var mark name => exact ⟨congrArg (d + ·) h.1, h.2⟩
  | bool mark b => exact ⟨congrArg (d + ·) h.1, h.2⟩
  | number mark x => exact ⟨congrArg (d + ·) h.1, h.2⟩
  | text mark value => exact ⟨congrArg (d + ·) h.1, h.2⟩
  | array mark elements ih =>
    obtain ⟨rfl, u, hu, rfl⟩ := h
    exact ⟨rfl, u, hlist ih hu, rfl⟩
  | binary mark op left right ihl ihr =>
    obtain ⟨u, v, hu, rfl, hv, rfl⟩ := h
    refine ⟨u, v, ihl hu, ?_, ?_, rfl⟩
    · simp only [Nat.add_assoc]
    · simpa only [Nat.add_assoc] using ihr hv
  | call mark name args ih =>
    obtain ⟨rfl, u, hu, rfl⟩ := h
    refine ⟨rfl, u, ?_, rfl⟩
    simpa only [Nat.add_assoc] using hlist ih hu
  | index mark object place iho ihp =>
    obtain ⟨rfl, u, v, hu, hv, rfl⟩ := h
    refine ⟨rfl, u, v, iho hu, ?_, rfl⟩
    simpa only [Nat.add_assoc] using ihp hv
  | member mark object property iho =>
    obtain ⟨rfl, u, hu, rfl⟩ := h
    exact ⟨rfl, u, iho hu, rfl⟩
  | method mark object name args iho ih =>
    obtain ⟨rfl, u, v, hu, hv, rfl⟩ := h
    refine ⟨rfl, u, v, iho hu, ?_, rfl⟩
    simpa only [Nat.add_assoc] using hlist ih hv

/-- A clause moved by some offset is marked further on by as much. -/
theorem Clause.SpellsAt.shift {c : Clause Nat} (h : c.SpellsAt o t) :
    (c.map (d + ·)).SpellsAt (d + o) t := by
  cases c with
  | assign mark name value =>
    obtain ⟨rfl, u, hu, rfl⟩ := h
    refine ⟨rfl, u, ?_, rfl⟩
    simpa only [Nat.add_assoc] using hu.shift d
  | ret mark value =>
    obtain ⟨rfl, u, hu, rfl⟩ := h
    exact ⟨rfl, u, hu.shift d, rfl⟩

theorem Clause.BodySpellsAt.shift {cs : List (Clause Nat)} (h : Clause.BodySpellsAt o cs t) :
    Clause.BodySpellsAt (d + o) (cs.map (Clause.map (d + ·))) t :=
  Parser.EachAt.shift h fun _ _ _ _ hA => hA.shift (Clause.SpellsAt.shift d)

theorem Stmt.SpellsAt.shift {s : Stmt Nat} (h : s.SpellsAt o t) :
    (s.map (d + ·)).SpellsAt (d + o) t := by
  cases s with
  | clause c => exact Clause.SpellsAt.shift d h
  | func name f =>
    obtain ⟨rfl, u, v, hu, hv, rfl⟩ := h
    refine ⟨rfl, u, v, hu, ?_, rfl⟩
    simpa only [Func.map, Nat.add_assoc] using hv.shift d
  | cond mark condition body | loop mark condition body =>
    obtain ⟨rfl, u, v, hu, hv, rfl⟩ := h
    refine ⟨rfl, u, v, hu.shift d, ?_, rfl⟩
    simpa only [Nat.add_assoc] using hv.shift d

end Shift

/-- **Marked statements one below the other**: the offsets of the lower ones grow by the text above
them. -/
theorem Script.SpellsAt.below {ss ss' : List (Stmt Nat)} {upper lower : Bytes}
    (h : Script.SpellsAt 0 ss upper) (h' : Script.SpellsAt 0 ss' lower) (hss : ss ≠ [])
    (hss' : ss' ≠ []) :
    Script.SpellsAt 0 (ss ++ ss'.map (Stmt.map (upper.length + 1 + ·)))
      (upper ++ Bytes.newline :: lower) := by
  have hlower := Parser.ItemsAt.shift (d := upper.length + 1) h' fun _ _ _ _ =>
    Stmt.SpellsAt.shift (upper.length + 1)
  refine Parser.ItemsAt.append h ?_ hss (by simpa using hss')
  rwa [Nat.zero_add]

/-! ### Sources -/

/-- **Sources that parse do so one below the other.** -/
theorem parse_below {upper lower : Bytes} {u l : Script} (hu : parse upper = .ok u)
    (hl : parse lower = .ok l) :
    parse (upper ++ Bytes.newline :: lower) =
      .ok ⟨upper ++ Bytes.newline :: lower, u.statements ++
        l.statements.map (Stmt.map (Position.below (Bytes.lines upper).length))⟩ := by
  obtain ⟨ss, hss, rfl⟩ := parse_eq_ok_iff.1 hu
  obtain ⟨ss', hss', rfl⟩ := parse_eq_ok_iff.1 hl
  obtain ⟨hspells, hwf⟩ := parseMarked_sound hss
  obtain ⟨hspells', hwf'⟩ := parseMarked_sound hss'
  have hmarked := parseMarked_complete (hspells.below hspells' hwf.1 hwf'.1)
    (hwf.append ((Script.wellFormed_map _).2 hwf'))
  refine parse_eq_ok_iff.2 ⟨_, hmarked, ?_⟩
  -- What is above stays in place, as the nodes are at footholds.
  have hupper : ∀ s ∈ ss, s.map (Position.ofOffset upper) =
      s.map (Position.ofOffset (upper ++ Bytes.newline :: lower)) := fun s hs =>
    Stmt.map_congr fun k hk => ((firm_of_parseMarked hss s hs k hk).append _).2.symm
  simp only [List.map_append, List.map_map, List.map_congr_left hupper, Function.comp_def,
    Stmt.map_map, ofOffset_below]

/-- **A source that parses can be taken apart** between any two of its statements. -/
theorem exists_parse_of_append {source : Bytes} {script : Script} {P Q : List (Stmt Position)}
    (h : parse source = .ok script) (hscript : script.statements = P ++ Q) (hP : P ≠ [])
    (hQ : Q ≠ []) :
    ∃ upper lower u l, source = upper ++ Bytes.newline :: lower ∧ parse upper = .ok u ∧
      parse lower = .ok l ∧ P = u.statements ∧
      Q = l.statements.map (Stmt.map (Position.below (Bytes.lines upper).length)) := by
  have hP' : P.map Stmt.bare ≠ [] := by simpa using hP
  have hQ' : Q.map Stmt.bare ≠ [] := by simpa using hQ
  obtain ⟨hwf, hspells⟩ := spells_of_parse h
  rw [hscript, List.map_append] at hwf hspells
  obtain ⟨upper, lower, rfl, hupper, hlower⟩ := hspells.exists_append hP' hQ'
  obtain ⟨hwfP, hwfQ⟩ := hwf.of_append hP' hQ'
  obtain ⟨u, hu, hbare⟩ := exists_parse_of_spells hwfP hupper
  obtain ⟨l, hl, -⟩ := exists_parse_of_spells hwfQ hlower
  -- The two parts are read again as what they were, since there is only one way to read the whole.
  have hboth := parse_below hu hl
  rw [h, Except.ok.injEq] at hboth
  subst hboth
  have hlength : P.length = u.statements.length := by
    simpa using (congrArg List.length hbare).symm
  obtain ⟨rfl, rfl⟩ := List.append_inj hscript.symm hlength
  exact ⟨upper, lower, u, l, rfl, hu, hl, rfl, rfl⟩

/-- **Parsing goes by lines.** A source is read as some statements and others after them, if
and only if it is made of two sources, one below the other, that are read as these statements; the
positions of the lower ones come down by the lines above them, and stay in their columns. -/
theorem parse_append_iff (source : Bytes) (P Q : List (Stmt Position)) :
    P ≠ [] ∧ Q ≠ [] ∧ parse source = .ok ⟨source, P ++ Q⟩ ↔
      ∃ upper lower u l, source = upper ++ Bytes.newline :: lower ∧ parse upper = .ok u ∧
        parse lower = .ok l ∧ P = u.statements ∧
        Q = l.statements.map (Stmt.map (Position.below (Bytes.lines upper).length)) := by
  constructor
  · rintro ⟨hP, hQ, h⟩
    exact exists_parse_of_append h rfl hP hQ
  · rintro ⟨upper, lower, u, l, rfl, hu, hl, rfl, rfl⟩
    have hne : ∀ {s : Bytes} {script : Script}, parse s = .ok script → script.statements ≠ [] :=
      fun h => by simpa using (spells_of_parse h).1.1
    exact ⟨hne hu, by simpa using hne hl, parse_below hu hl⟩

end Scriptlet
