import Scriptlet.Script.Parser

/-!
# What parsers read

A reply has two halves, what was read and what was missed, and they never depend on each
other: whether a parser succeeds is decided without looking at what it missed. This file is
about the first half. A parser **reads** a value when it succeeds with it, and **refuses** when it
fails, and every combinator is described by these two words.

Two forms are convenient for the grammar, one for each direction.

* `Parser.Sound p R`: whatever `p` reads is a beginning of what is left of the source, and stands
  in the relation `R` to the value and to the offset at which it begins. Soundness goes
  through sequences and choices without a look at what follows.
* `Parser.Takes p o t r a`: at the offset `o`, with the text `t` ahead and `r` after it, `p`
  reads `a` and stops exactly between `t` and `r`. Here what follows matters, since a run of
  bytes goes on as long as it can and a choice commits to its first success.

Texts of several items are put together in two ways in the grammar: with something before each of
them (`EachAt`, `After`), or with something between them (`ItemsAt`), where the relation between
an item and its text is a parameter. Repetition and lists are settled once, for any items.
-/

namespace Scriptlet

namespace Parser

variable {α β : Type}

/-! ### Reading and refusing -/

/-- From the cursor `c` the parser `p` reads `a` and comes to the cursor `c'`. -/
def Reads (p : Parser α) (c : Cursor) (a : α) (c' : Cursor) : Prop :=
  (p c).result = some (a, c')

/-- At the cursor `c` the parser `p` fails. -/
def Refuses (p : Parser α) (c : Cursor) : Prop :=
  (p c).result = none

theorem not_refuses_of_reads {p : Parser α} {c c' : Cursor} {a : α} (h : p.Reads c a c') :
    ¬p.Refuses c := by
  rw [Refuses, h]
  simp

/-- A parser of a value at hand reads it and does not move. -/
theorem reads_pure {a b : α} {c c' : Cursor} :
    (pure a : Parser α).Reads c b c' ↔ b = a ∧ c' = c := by
  change some (a, c) = some (b, c') ↔ _
  simp only [Option.some.injEq, Prod.mk.injEq]
  exact ⟨fun h => ⟨h.1.symm, h.2.symm⟩, fun h => ⟨h.1.symm, h.2.symm⟩⟩

theorem result_bind (p : Parser α) (f : α → Parser β) (c : Cursor) :
    ((p >>= f) c).result = (p c).result.bind fun x => (f x.1 x.2).result := by
  change (Parser.bind p f c).result = _
  unfold Parser.bind
  rcases p c with ⟨_ | ⟨a, c'⟩, m⟩
  · rfl
  · rfl

/-- **A sequence reads** when its parts read one after another. -/
theorem reads_bind {p : Parser α} {f : α → Parser β} {c c'' : Cursor} {b : β} :
    (p >>= f).Reads c b c'' ↔ ∃ a c', p.Reads c a c' ∧ (f a).Reads c' b c'' := by
  rw [Reads, result_bind, Option.bind_eq_some_iff]
  constructor
  · rintro ⟨⟨a, c'⟩, hp, hf⟩
    exact ⟨a, c', hp, hf⟩
  · rintro ⟨a, c', hp, hf⟩
    exact ⟨(a, c'), hp, hf⟩

/-- A sequence fails at its first part, or at the second from where the first one comes to. -/
theorem refuses_bind {p : Parser α} {f : α → Parser β} {c : Cursor} :
    (p >>= f).Refuses c ↔ p.Refuses c ∨ ∃ a c', p.Reads c a c' ∧ (f a).Refuses c' := by
  rw [Refuses, result_bind]
  rcases hp : (p c).result with _ | ⟨a, c'⟩
  · simp [Refuses, hp]
  · constructor
    · intro hf
      exact Or.inr ⟨a, c', hp, hf⟩
    · rintro (hn | ⟨a', c'', hr, hf⟩)
      · exact absurd hn (not_refuses_of_reads hp)
      · rw [Reads, hp, Option.some.injEq, Prod.mk.injEq] at hr
        obtain ⟨rfl, rfl⟩ := hr
        exact hf

theorem refuses_offset_bind {f : Nat → Parser β} {c : Cursor} :
    (offset >>= f).Refuses c ↔ (f c.offset).Refuses c := by
  rw [Refuses, result_bind]
  exact Iff.rfl

theorem refuses_map {p : Parser α} {g : α → β} {c : Cursor} :
    (do let x ← p; pure (g x) : Parser β).Refuses c ↔ p.Refuses c := by
  rw [Refuses, result_bind, Option.bind_eq_none_iff, Refuses, Option.eq_none_iff_forall_ne_some]
  exact ⟨fun h x hx => absurd (h x hx) (by simp [pure, Parser.pure]), fun h x hx => absurd hx (h x)⟩

theorem result_orElse (p q : Parser α) (c : Cursor) :
    ((p <|> q) c).result = (p c).result.or (q c).result := by
  change (Parser.orElse p q c).result = _
  unfold Parser.orElse
  rcases p c with ⟨_ | r, m⟩
  · rfl
  · rfl

/-- **A choice reads** what its first side reads, and only where that fails what its second side
reads. -/
theorem reads_orElse {p q : Parser α} {c c' : Cursor} {a : α} :
    (p <|> q).Reads c a c' ↔ p.Reads c a c' ∨ p.Refuses c ∧ q.Reads c a c' := by
  rw [Reads, result_orElse, Option.or_eq_some_iff]
  exact Iff.rfl

/-- A choice fails when both of its sides do. -/
theorem refuses_orElse {p q : Parser α} {c : Cursor} :
    (p <|> q).Refuses c ↔ p.Refuses c ∧ q.Refuses c := by
  rw [Refuses, result_orElse, Option.or_eq_none_iff]
  exact Iff.rfl

/-- A fixed piece of text is refused where the source does not go on with it. -/
theorem refuses_literal {t : Bytes} {c : Cursor} :
    (literal t).Refuses c ↔ Bytes.after? t c.rest = none := by
  unfold Refuses literal
  cases Bytes.after? t c.rest with
  | none => simp
  | some r => simp

/-- A fixed text is not read where another byte than its first one stands. -/
theorem refuses_literal_of_head {t : Bytes} {c : Cursor} {b : UInt8} (ht : t.head? = some b)
    (hc : ∀ b' ∈ c.rest.head?, b' ≠ b) : (literal t).Refuses c := by
  rw [refuses_literal]
  obtain ⟨t, rfl⟩ := List.head?_eq_some_iff.1 ht
  rcases hr : c.rest with _ | ⟨b', s⟩
  · rfl
  · have hne : b ≠ b' := fun h => hc b' (by simp [hr]) h.symm
    simp [Bytes.after?, hne]

/-- A run is refused where the source does not begin with a byte of it. -/
theorem refuses_run {p : UInt8 → Bool} {e : Expectation} {c : Cursor}
    (h : ∀ b ∈ c.rest.head?, p b = false) : (run p e).Refuses c := by
  unfold Refuses run
  rcases hr : c.rest with _ | ⟨b, s⟩
  · rfl
  · have hb : p b = false := h b (by simp [hr])
    simp [hb]

/-! ### Soundness -/

/-- **Whatever `p` reads is a beginning of what is left**, in the relation `R` to the value
and to the offset at which it begins. -/
def Sound (p : Parser α) (R : Nat → α → Bytes → Prop) : Prop :=
  ∀ ⦃o : Nat⦄ ⦃s : Bytes⦄ ⦃a : α⦄ ⦃c' : Cursor⦄, p.Reads ⟨o, s⟩ a c' →
    ∃ t r, s = t ++ r ∧ c' = ⟨o + t.length, r⟩ ∧ R o a t

/-- What holds of all that a parser reads may be replaced by something weaker. -/
theorem Sound.mono {p : Parser α} {R Q : Nat → α → Bytes → Prop} (hp : p.Sound R)
    (h : ∀ {o a t}, R o a t → Q o a t) : p.Sound Q := by
  intro o s a c' hr
  obtain ⟨t, r, hs, hc, hR⟩ := hp hr
  exact ⟨t, r, hs, hc, h hR⟩

theorem sound_pure (a : α) : (pure a : Parser α).Sound fun _ b t => b = a ∧ t = [] := by
  intro o s b c' h
  obtain ⟨rfl, rfl⟩ := reads_pure.1 h
  exact ⟨[], s, rfl, rfl, rfl, rfl⟩

/-- **Soundness of a sequence**: the text is made of two pieces, one for each part, and the second
one begins where the first one ends. -/
theorem Sound.bind {p : Parser α} {f : α → Parser β} {R : Nat → α → Bytes → Prop}
    {Q : α → Nat → β → Bytes → Prop} (hp : p.Sound R) (hf : ∀ a, (f a).Sound (Q a)) :
    (p >>= f).Sound fun o b t =>
      ∃ a t₁ t₂, t = t₁ ++ t₂ ∧ R o a t₁ ∧ Q a (o + t₁.length) b t₂ := by
  intro o s b c'' h
  obtain ⟨a, c', hpr, hfr⟩ := reads_bind.1 h
  obtain ⟨t₁, r₁, rfl, rfl, hR⟩ := hp hpr
  obtain ⟨t₂, r₂, rfl, rfl, hQ⟩ := hf a hfr
  refine ⟨t₁ ++ t₂, r₂, by simp, ?_, a, t₁, t₂, rfl, hR, hQ⟩
  rw [List.length_append, Nat.add_assoc]

/-- Soundness of a choice needs no look at which side was taken. -/
theorem Sound.orElse {p q : Parser α} {R : Nat → α → Bytes → Prop} (hp : p.Sound R)
    (hq : q.Sound R) : (p <|> q).Sound R := by
  intro o s a c' h
  rcases reads_orElse.1 h with h | ⟨-, h⟩
  · exact hp h
  · exact hq h

theorem sound_offset : offset.Sound fun o a t => a = o ∧ t = [] := by
  intro o s a c' h
  have h' : some (o, (⟨o, s⟩ : Cursor)) = some (a, c') := h
  simp only [Option.some.injEq, Prod.mk.injEq] at h'
  obtain ⟨rfl, rfl⟩ := h'
  exact ⟨[], s, rfl, rfl, rfl, rfl⟩

theorem sound_literal (text : Bytes) : (literal text).Sound fun _ _ t => t = text := by
  intro o s u c' h
  unfold Reads literal at h
  rcases ha : Bytes.after? text s with _ | r
  · simp [ha] at h
  · simp only [ha, Option.some.injEq, Prod.mk.injEq] at h
    exact ⟨text, r, Bytes.after?_eq_some_iff.1 ha, h.2.symm, rfl⟩

/-- A run of bytes is not empty, and all of it is accepted. -/
theorem sound_run (p : UInt8 → Bool) (e : Expectation) :
    (run p e).Sound fun _ bs t => t = bs ∧ bs ≠ [] ∧ ∀ b ∈ bs, p b = true := by
  intro o s bs c' h
  unfold Reads run at h
  rcases ht : s.takeWhile p with _ | ⟨b, t⟩
  · simp [ht] at h
  · simp only [ht, Option.some.injEq, Prod.mk.injEq] at h
    obtain ⟨rfl, rfl⟩ := h
    have hs : s = (b :: t) ++ s.dropWhile p := by rw [← ht, List.takeWhile_append_dropWhile]
    refine ⟨b :: t, s.dropWhile p, hs, ?_, rfl, by simp, fun b' hb' => ?_⟩
    · have hdrop : s.drop (b :: t).length = s.dropWhile p := by
        rw [hs, List.drop_left, ← hs]
      rw [Cursor.advance, hdrop]
    · rw [← ht] at hb'
      exact List.all_eq_true.1 List.all_takeWhile b' hb'

/-! ### Taking a text and leaving the rest -/

/-- **With `t` ahead and `r` after it, `p` reads `a` and stops between the two.** -/
def Takes (p : Parser α) (o : Nat) (t r : Bytes) (a : α) : Prop :=
  p.Reads ⟨o, t ++ r⟩ a ⟨o + t.length, r⟩

theorem takes_pure (a : α) (o : Nat) (r : Bytes) : (pure a : Parser α).Takes o [] r a :=
  reads_pure.2 ⟨rfl, rfl⟩

/-- **A sequence takes two texts in a row.** What follows the first part is the second text with the
rest. -/
theorem Takes.bind {p : Parser α} {f : α → Parser β} {o : Nat} {t t' r : Bytes} {a : α} {b : β}
    (hp : p.Takes o t (t' ++ r) a) (hf : (f a).Takes (o + t.length) t' r b) :
    (p >>= f).Takes o (t ++ t') r b := by
  refine reads_bind.2 ⟨a, ⟨o + t.length, t' ++ r⟩, ?_, ?_⟩
  · rw [List.append_assoc]
    exact hp
  · rw [List.length_append, ← Nat.add_assoc]
    exact hf

/-- What comes after a parser may depend on its value without consuming anything. -/
theorem Takes.map {p : Parser α} {o : Nat} {t r : Bytes} {a : α} (hp : p.Takes o t r a)
    (g : α → β) : (do let x ← p; pure (g x) : Parser β).Takes o t r (g a) :=
  reads_bind.2 ⟨a, _, hp, reads_pure.2 ⟨rfl, rfl⟩⟩

theorem Takes.orElse_left {p : Parser α} {o : Nat} {t r : Bytes} {a : α} (hp : p.Takes o t r a)
    (q : Parser α) : (p <|> q).Takes o t r a :=
  reads_orElse.2 (Or.inl hp)

/-- A choice takes what its second side takes, where the first one fails on the whole text. -/
theorem Takes.orElse_right {p q : Parser α} {o : Nat} {t r : Bytes} {a : α}
    (hq : q.Takes o t r a) (hp : p.Refuses ⟨o, t ++ r⟩) : (p <|> q).Takes o t r a :=
  reads_orElse.2 (Or.inr ⟨hp, hq⟩)

theorem takes_offset (o : Nat) (r : Bytes) : offset.Takes o [] r o := rfl

theorem takes_literal (text : Bytes) (o : Nat) (r : Bytes) : (literal text).Takes o text r () := by
  unfold Takes Reads literal
  rw [Bytes.after?_eq_some_iff.2 rfl]

/-- A run is taken whole when what follows does not continue it. -/
theorem takes_run {p : UInt8 → Bool} (e : Expectation) {bs r : Bytes} (o : Nat) (hne : bs ≠ [])
    (hbs : ∀ b ∈ bs, p b = true) (hr : ∀ b ∈ r.head?, p b = false) :
    (run p e).Takes o bs r bs := by
  have htake : (bs ++ r).takeWhile p = bs := by
    rw [List.takeWhile_append_of_pos hbs]
    rcases r with _ | ⟨b, r⟩
    · simp
    · have hb : p b = false := hr b rfl
      simp [hb]
  unfold Takes Reads run
  obtain ⟨b, t, rfl⟩ := List.exists_cons_of_ne_nil hne
  simp only [htake, Cursor.advance, List.drop_left]

/-! ### Texts of several items -/

/-- A text in the relation `R` to a value, with the text `sep` before it. -/
def After (sep : Bytes) (R : Nat → α → Bytes → Prop) (o : Nat) (a : α) (t : Bytes) : Prop :=
  ∃ u, t = sep ++ u ∧ R (o + sep.length) a u

/-- The texts of several values, one after another from the offset `o` on. -/
def EachAt (R : Nat → α → Bytes → Prop) : (o : Nat) → List α → Bytes → Prop
  | _, [], t => t = []
  | o, a :: as, t => ∃ t₁ t₂, t = t₁ ++ t₂ ∧ R o a t₁ ∧ EachAt R (o + t₁.length) as t₂

/-- The texts of several values with `sep` between neighbours, from the offset `o` on. -/
def ItemsAt (sep : Bytes) (R : Nat → α → Bytes → Prop) : (o : Nat) → List α → Bytes → Prop
  | _, [], t => t = []
  | o, a :: as, t =>
    ∃ t₁ t₂, t = t₁ ++ t₂ ∧ R o a t₁ ∧ EachAt (After sep R) (o + t₁.length) as t₂

/-- The relation between items and their texts may be weakened for the items that there are. -/
theorem EachAt.mono {R Q : Nat → α → Bytes → Prop} {o : Nat} {as : List α} {t : Bytes}
    (hE : EachAt R o as t) (h : ∀ a ∈ as, ∀ o t, R o a t → Q o a t) : EachAt Q o as t := by
  induction as generalizing o t with
  | nil => exact hE
  | cons a as ih =>
    obtain ⟨t₁, t₂, rfl, hR, hE⟩ := hE
    exact ⟨t₁, t₂, rfl, h a List.mem_cons_self _ _ hR,
      ih hE fun a' ha' => h a' (List.mem_cons_of_mem a ha')⟩

theorem After.mono {R Q : Nat → α → Bytes → Prop} {sep : Bytes} {o : Nat} {a : α} {t : Bytes}
    (hA : After sep R o a t) (h : ∀ o t, R o a t → Q o a t) : After sep Q o a t := by
  obtain ⟨u, rfl, hR⟩ := hA
  exact ⟨u, rfl, h _ _ hR⟩

theorem ItemsAt.mono {R Q : Nat → α → Bytes → Prop} {sep : Bytes} {o : Nat} {as : List α}
    {t : Bytes} (hI : ItemsAt sep R o as t) (h : ∀ a ∈ as, ∀ o t, R o a t → Q o a t) :
    ItemsAt sep Q o as t := by
  cases as with
  | nil => exact hI
  | cons a as =>
    obtain ⟨t₁, t₂, rfl, hR, hE⟩ := hI
    exact ⟨t₁, t₂, rfl, h a List.mem_cons_self _ _ hR,
      hE.mono fun a' ha' _ _ hA => hA.mono (h a' (List.mem_cons_of_mem a ha'))⟩

/-- What the relation says of an item whatever its place and text holds of all of them. -/
theorem EachAt.forall_mem {R : Nat → α → Bytes → Prop} {P : α → Prop} {o : Nat} {as : List α}
    {t : Bytes} (hE : EachAt R o as t) (h : ∀ {o a t}, R o a t → P a) : ∀ a ∈ as, P a := by
  induction as generalizing o t with
  | nil => simp
  | cons a as ih =>
    obtain ⟨t₁, t₂, rfl, hR, hE⟩ := hE
    rw [List.forall_mem_cons]
    exact ⟨h hR, ih hE⟩

theorem ItemsAt.forall_mem {R : Nat → α → Bytes → Prop} {P : α → Prop} {sep : Bytes} {o : Nat}
    {as : List α} {t : Bytes} (hI : ItemsAt sep R o as t) (h : ∀ {o a t}, R o a t → P a) :
    ∀ a ∈ as, P a := by
  cases as with
  | nil => simp
  | cons a as =>
    obtain ⟨t₁, t₂, rfl, hR, hE⟩ := hI
    rw [List.forall_mem_cons]
    refine ⟨h hR, hE.forall_mem ?_⟩
    rintro o a t ⟨u, -, hR⟩
    exact h hR

/-- A separator and an item are read as an item after a separator. -/
theorem sound_after {p : Parser α} {R : Nat → α → Bytes → Prop} (sep : Bytes) (hp : p.Sound R) :
    (do literal sep; p : Parser α).Sound (After sep R) := by
  refine ((sound_literal sep).bind fun _ => hp).mono ?_
  rintro o a t ⟨-, t₁, t₂, rfl, rfl, hR⟩
  exact ⟨t₂, rfl, hR⟩

/-- A repetition reads items, each as the parser for one says. The induction is on how often it may
go on. -/
theorem sound_repeatUpTo {p : Parser α} {R : Nat → α → Bytes → Prop} (hp : p.Sound R)
    (fuel : Nat) : (repeatUpTo p fuel).Sound (EachAt R) := by
  induction fuel with
  | zero =>
    intro o s as c' h
    have h' : some (([] : List α), (⟨o, s⟩ : Cursor)) = some (as, c') := h
    simp only [Option.some.injEq, Prod.mk.injEq] at h'
    obtain ⟨rfl, rfl⟩ := h'
    exact ⟨[], s, rfl, rfl, rfl⟩
  | succ fuel ih =>
    intro o s as c' h
    unfold Reads repeatUpTo at h
    rcases hpr : p ⟨o, s⟩ with ⟨_ | ⟨a, c₁⟩, m⟩
    · simp only [hpr, Option.some.injEq, Prod.mk.injEq] at h
      obtain ⟨rfl, rfl⟩ := h
      exact ⟨[], s, rfl, rfl, rfl⟩
    · -- one item, and the others by induction
      obtain ⟨t₁, r₁, rfl, rfl, hR⟩ := hp (show p.Reads ⟨o, s⟩ a c₁ by rw [Reads, hpr])
      rcases hrep : repeatUpTo p fuel ⟨o + t₁.length, r₁⟩ with ⟨_ | ⟨as', c₂⟩, m'⟩
      · simp [hpr, hrep] at h
      · simp only [hpr, hrep, Option.some.injEq, Prod.mk.injEq] at h
        obtain ⟨rfl, rfl⟩ := h
        obtain ⟨t₂, r₂, rfl, rfl, hE⟩ :=
          ih (show (repeatUpTo p fuel).Reads ⟨o + t₁.length, r₁⟩ as' c₂ by rw [Reads, hrep])
        refine ⟨t₁ ++ t₂, r₂, by simp, ?_, t₁, t₂, rfl, hR, hE⟩
        rw [List.length_append, Nat.add_assoc]

/-- Repetition reads the texts of its items. -/
theorem Sound.many {p : Parser α} {R : Nat → α → Bytes → Prop} (hp : p.Sound R) :
    (many p).Sound (EachAt R) := by
  intro o s as c' h
  exact sound_repeatUpTo hp _ h

/-- A list reads the texts of its items and what is between them. -/
theorem Sound.list {item : Parser α} {R : Nat → α → Bytes → Prop} (hp : item.Sound R) :
    (list item).Sound (ItemsAt (Bytes.ofString ", ") R) := by
  refine Sound.orElse ?_ ?_
  · refine (hp.bind fun first => ((sound_after _ hp).many).bind fun others =>
      sound_pure (first :: others)).mono ?_
    rintro o as t ⟨a, t₁, t₂, rfl, hR, as', t₃, t₄, rfl, hE, rfl, rfl⟩
    exact ⟨t₁, t₃, by simp, hR, hE⟩
  · refine (sound_pure []).mono ?_
    rintro o as t ⟨rfl, rfl⟩
    exact rfl

/-- There are no more items than bytes, as no item is empty. -/
theorem length_le_of_eachAt {R : Nat → α → Bytes → Prop} (hne : ∀ {o a t}, R o a t → t ≠ [])
    {o : Nat} {as : List α} {t : Bytes} (h : EachAt R o as t) : as.length ≤ t.length := by
  induction as generalizing o t with
  | nil => exact Nat.zero_le _
  | cons a as ih =>
    obtain ⟨t₁, t₂, rfl, hR, hE⟩ := h
    have h₁ : 0 < t₁.length := List.length_pos_iff.2 (hne hR)
    have h₂ := ih hE
    rw [List.length_append, List.length_cons]
    omega

/-- The invariant of a repetition: `F` holds of whatever follows an item, be it another
item or what follows them all, so each item is taken whole, and the attempt after the last one
fails. -/
theorem takes_repeatUpTo {p : Parser α} {R : Nat → α → Bytes → Prop} {F : Bytes → Prop}
    {r : Bytes} (hF : ∀ {o a t r}, R o a t → F (t ++ r)) (hr : F r)
    (hend : ∀ o, p.Refuses ⟨o, r⟩) {as : List α}
    (hp : ∀ a ∈ as, ∀ {o t r}, R o a t → F r → p.Takes o t r a) {fuel o : Nat} {t : Bytes}
    (hfuel : as.length < fuel) (h : EachAt R o as t) : (repeatUpTo p fuel).Takes o t r as := by
  induction as generalizing fuel o t with
  | nil =>
    obtain ⟨fuel, rfl⟩ := Nat.exists_eq_add_of_lt hfuel
    obtain rfl : t = [] := h
    have hn := hend o
    unfold Takes Reads
    rw [List.length_nil, Nat.zero_add, repeatUpTo, List.nil_append]
    rcases hpr : p ⟨o, r⟩ with ⟨_ | x, m⟩
    · rfl
    · rw [Refuses, hpr] at hn
      exact absurd hn (by simp)
  | cons a as ih =>
    obtain ⟨t₁, t₂, rfl, hR, hE⟩ := h
    obtain ⟨fuel, rfl⟩ : ∃ n, fuel = n + 1 := ⟨fuel - 1, by rw [List.length_cons] at hfuel; omega⟩
    -- what follows the first item is the second one or, if it is the only one, `r`
    have hnext : F (t₂ ++ r) := by
      cases as with
      | nil =>
        obtain rfl : t₂ = [] := hE
        exact hr
      | cons a' as =>
        obtain ⟨t₃, t₄, rfl, hR', -⟩ := hE
        rw [List.append_assoc]
        exact hF hR'
    have hfirst : p.Takes o t₁ (t₂ ++ r) a := hp a List.mem_cons_self hR hnext
    have hothers : (repeatUpTo p fuel).Takes (o + t₁.length) t₂ r as :=
      ih (fun a' ha' => hp a' (List.mem_cons_of_mem a ha'))
        (by rw [List.length_cons] at hfuel; omega) hE
    unfold Takes Reads at hfirst hothers ⊢
    rcases hpr : p ⟨o, t₁ ++ (t₂ ++ r)⟩ with ⟨x, m⟩
    rcases hrep : repeatUpTo p fuel ⟨o + t₁.length, t₂ ++ r⟩ with ⟨y, m'⟩
    rw [hpr] at hfirst
    rw [hrep] at hothers
    obtain rfl : x = _ := hfirst
    obtain rfl : y = _ := hothers
    rw [repeatUpTo, List.append_assoc, hpr]
    simp only [hrep, List.length_append, Nat.add_assoc]

/-- Repetition takes the texts of its items, each with `sep` before it. -/
theorem takes_many {item : Parser α} {R : Nat → α → Bytes → Prop} {F : Bytes → Prop}
    {sep r : Bytes} (hsep : sep ≠ []) (hF : ∀ {o a t r}, R o a t → F (sep ++ (t ++ r))) (hr : F r)
    (hend : ∀ o, (do literal sep; item : Parser α).Refuses ⟨o, r⟩) {as : List α}
    (hp : ∀ a ∈ as, ∀ {o t r}, R o a t → F r → item.Takes o t r a) {o : Nat} {t : Bytes}
    (h : EachAt (After sep R) o as t) :
    (many (do literal sep; item)).Takes o t r as := by
  have hne : ∀ {o a t}, After sep R o a t → t ≠ [] := by
    rintro o a t ⟨u, rfl, -⟩ hcon
    exact hsep (List.append_eq_nil_iff.1 hcon).1
  -- a repetition may go on for as many items as there are bytes, and no item is empty
  have hlen : as.length < (t ++ r).length + 1 := by
    have := length_le_of_eachAt hne h
    rw [List.length_append]
    omega
  refine takes_repeatUpTo ?_ hr hend ?_ hlen h
  · rintro o a t r ⟨u, rfl, hR⟩
    rw [List.append_assoc]
    exact hF hR
  · rintro a ha o t r ⟨u, rfl, hR⟩ hr
    exact (takes_literal sep o (u ++ r)).bind (hp a ha hR hr)

/-- A list takes the texts of its items, when what follows begins no further item. -/
theorem takes_list {item : Parser α} {R : Nat → α → Bytes → Prop} {F : Bytes → Prop} {r : Bytes}
    (hF : ∀ {o a t r}, R o a t → F (Bytes.ofString ", " ++ (t ++ r))) (hr : F r)
    (hend : ∀ o, (literal (Bytes.ofString ", ")).Refuses ⟨o, r⟩)
    (hnone : ∀ o, item.Refuses ⟨o, r⟩) {as : List α}
    (hp : ∀ a ∈ as, ∀ {o t r}, R o a t → F r → item.Takes o t r a) {o : Nat} {t : Bytes}
    (h : ItemsAt (Bytes.ofString ", ") R o as t) : (list item).Takes o t r as := by
  cases as with
  | nil =>
    obtain rfl : t = [] := h
    exact (takes_pure [] o r).orElse_right (refuses_bind.2 (Or.inl (hnone o)))
  | cons a as =>
    obtain ⟨t₁, t₂, rfl, hR, hE⟩ := h
    -- behind the first item comes a comma, or what follows the list
    have hnext : F (t₂ ++ r) := by
      cases as with
      | nil =>
        obtain rfl : t₂ = [] := hE
        exact hr
      | cons a' as =>
        obtain ⟨t₃, t₄, rfl, ⟨u, rfl, hR'⟩, -⟩ := hE
        rw [List.append_assoc, List.append_assoc]
        exact hF hR'
    have hmany : (many (do literal (Bytes.ofString ", "); item)).Takes (o + t₁.length) t₂ r as :=
      takes_many (by decide) hF hr (fun o => refuses_bind.2 (Or.inl (hend o)))
        (fun a' ha' => hp a' (List.mem_cons_of_mem a ha')) hE
    exact ((hp a List.mem_cons_self hR hnext).bind (hmany.map (a :: ·))).orElse_left _

end Parser

end Scriptlet
