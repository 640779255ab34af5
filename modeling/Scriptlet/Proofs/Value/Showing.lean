import Scriptlet.Proofs.Decimal.Writing
import Scriptlet.Proofs.Table
import Scriptlet.Proofs.Text.Lines
import Scriptlet.Proofs.Text.Quoted
import Scriptlet.Proofs.Value.Equality
import Scriptlet.Value.Output

/-!
# What is shown tells the values

Values are shown in a form that a reader takes apart from left to right. The first byte says whether
an array or a text begins, or a bare word: a number, a truth value, or the word for no value. A text
ends at its closing quote, which can be told from all that is quoted, and a word ends at the first
byte that delimits. So commas and brackets in a text do no harm, and what is shown tells the value,
with anything behind a delimiter (`Value.told`).

A line of a listing is a name, which has no blank in it, and a value behind an equals sign. So a
listing tells the variables line by line (`Bindings.write_text_unambiguous`). As in quoted text, it
does not matter which characters are printable, as long as the line feed is not.
-/

namespace Scriptlet

/-! ### Words and what delimits them -/

/-- What stands behind a value: a comma, a closing bracket, or the end of a line. -/
def isDelimiter (b : UInt8) : Bool :=
  b == 0x2c || b == 0x5d || b == Bytes.newline

/-- What begins a value that is no word: an opening bracket or a quote. -/
def isOpening (b : UInt8) : Bool :=
  b == 0x5b || b == Bytes.doubleQuote

/-- A byte of a bare word. -/
def isWordByte (b : UInt8) : Bool :=
  !isDelimiter b && !isOpening b

/-- **Two runs of bytes of a kind** are the same when something else follows each. -/
theorem append_inj_of_run {p : UInt8 → Bool} {u v s t : Bytes} (hu : ∀ b ∈ u, p b = true)
    (hv : ∀ b ∈ v, p b = true) (hs : ∀ b ∈ s.head?, p b = false) (ht : ∀ b ∈ t.head?, p b = false)
    (h : u ++ s = v ++ t) : u = v ∧ s = t := by
  have hstop : ∀ {r : Bytes}, (∀ b ∈ r.head?, p b = false) → r.takeWhile p = [] := by
    intro r hr
    cases r with
    | nil => rfl
    | cons b r => exact List.takeWhile_cons_of_neg (by rw [hr b rfl]; decide)
  have hrun := congrArg (List.takeWhile p) h
  rw [List.takeWhile_append_of_pos hu, List.takeWhile_append_of_pos hv, hstop hs, hstop ht,
    List.append_nil, List.append_nil] at hrun
  exact ⟨hrun, List.append_cancel_left (hrun ▸ h)⟩

namespace Value

/-! ### Bare words -/

/-- Whether a value is shown as a bare word. -/
def isBare : Value → Bool
  | array _ | text _ => false
  | bool _ | number _ | invalid => true

section Bare

variable {v w : Value} {b : UInt8}

theorem inspect_number (x : Float) : inspect (number x) = showNumber x :=
  List.append_nil _

/-- A number is shown without anything that ends an item of a list. -/
theorem isWordByte_of_mem_showNumber {x : Float} (hb : b ∈ showNumber x) :
    isWordByte b = true := by
  -- none of the five bytes that are not in words is in a number
  by_contra hword
  simp only [isWordByte, isDelimiter, isOpening, Bool.and_eq_true, Bool.not_eq_true',
    Bool.or_eq_false_iff, beq_eq_false_iff_ne, not_and_or, not_not] at hword
  rcases hword with ((rfl | rfl) | rfl) | rfl | rfl <;>
    exact absurd (isNumberByte_of_mem hb) (by decide)

theorem isWordByte_of_mem_inspect (hv : v.isBare = true) (hb : b ∈ v.inspect) :
    isWordByte b = true := by
  cases v with
  | array => cases hv
  | text => cases hv
  | number x => exact isWordByte_of_mem_showNumber (inspect_number x ▸ hb)
  | bool value =>
    have hword : (bool value).inspect.all isWordByte = true := by
      cases value <;> rfl
    exact List.all_eq_true.1 hword b hb
  | invalid => exact List.all_eq_true.1 (rfl : invalid.inspect.all isWordByte = true) b hb

theorem inspect_ne_nil_of_isBare (hv : v.isBare = true) : v.inspect ≠ [] := by
  cases v with
  | array => cases hv
  | text => cases hv
  | number x => exact inspect_number x ▸ showNumber_ne_nil x
  | bool value => cases value <;> decide
  | invalid => decide

/-- No number is shown as a truth value is. -/
theorem showNumber_ne_inspect_bool (x : Float) (value : Bool) :
    showNumber x ≠ (bool value).inspect := by
  intro h
  have hletter : (0x65 : UInt8) ∈ (bool value).inspect := by
    cases value <;> decide
  exact absurd (isNumberByte_of_mem (h ▸ hletter)) (by decide)

theorem showNumber_ne_inspect_invalid (x : Float) : showNumber x ≠ invalid.inspect := by
  intro h
  have hsign : (0x3c : UInt8) ∈ invalid.inspect := by decide
  exact absurd (isNumberByte_of_mem (h ▸ hsign)) (by decide)

/-- **A bare word tells its value.** -/
theorem eq_of_inspect_eq (hv : v.isBare = true) (hw : w.isBare = true)
    (h : v.inspect = w.inspect) : v = w := by
  cases v with
  | array => cases hv
  | text => cases hv
  | number x =>
    rw [inspect_number] at h
    cases w with
    | array => cases hw
    | text => cases hw
    | number y => rw [showNumber_injective (h.trans (inspect_number y))]
    | bool value => exact absurd h (showNumber_ne_inspect_bool x value)
    | invalid => exact absurd h (showNumber_ne_inspect_invalid x)
  | bool value =>
    cases w with
    | array => cases hw
    | text => cases hw
    | number y => exact absurd h.symm (inspect_number y ▸ showNumber_ne_inspect_bool y value)
    | bool value' =>
      cases value <;> cases value'
      · rfl
      · exact absurd h (by decide)
      · exact absurd h (by decide)
      · rfl
    | invalid => exact absurd h (by cases value <;> decide)
  | invalid =>
    cases w with
    | array => cases hw
    | text => cases hw
    | number y => exact absurd h.symm (inspect_number y ▸ showNumber_ne_inspect_invalid y)
    | bool value' => exact absurd h (by cases value' <;> decide)
    | invalid => rfl

end Bare

/-! ### Values -/

mutual

/-- A value as it is shown, with any idea of printable characters. -/
def inspectWith (printable : Char → Bool) : Value → Bytes
  | array vs => 0x5b :: Bytes.join [0x2c, Bytes.space] (inspectAllWith printable vs) ++ [0x5d]
  | text s => Bytes.quotedWith printable (Bytes.unpack s)
  | bool value => inspect (bool value)
  | number x => inspect (number x)
  | invalid => inspect invalid

/-- Values as they are shown, one by one. -/
def inspectAllWith (printable : Char → Bool) : List Value → List Bytes
  | [] => []
  | v :: vs => inspectWith printable v :: inspectAllWith printable vs

end

section Inspect

variable {printable : Char → Bool} {v w : Value} {vs ws : List Value} {s t : Bytes}

theorem inspectAllWith_eq_map (printable : Char → Bool) (vs : List Value) :
    inspectAllWith printable vs = vs.map (inspectWith printable) := by
  induction vs with
  | nil => rfl
  | cons v vs ih => rw [inspectAllWith, ih, List.map_cons]

theorem inspectWith_array (vs : List Value) : (array vs).inspectWith printable =
    0x5b :: Bytes.join [0x2c, Bytes.space] (vs.map (inspectWith printable)) ++ [0x5d] := by
  rw [inspectWith, inspectAllWith_eq_map]

theorem inspectWith_text (x : ByteArray) :
    (text x).inspectWith printable = Bytes.quotedWith printable (Bytes.unpack x) := by
  rw [inspectWith]

theorem inspectWith_of_isBare (hv : v.isBare = true) : v.inspectWith printable = v.inspect := by
  cases v with
  | array => cases hv
  | text => cases hv
  | bool => rw [inspectWith]
  | number => rw [inspectWith]
  | invalid => rw [inspectWith]

/-- With the characters that are printable, this is how values are shown. -/
theorem inspectWith_isPrintable (v : Value) : v.inspectWith isPrintable = v.inspect := by
  induction v with
  | array vs ih => rw [inspectWith_array, inspect_array, List.map_congr_left ih]
  | text s =>
    rw [inspectWith_text, Bytes.quotedWith_isPrintable]
    exact (List.append_nil _).symm
  | bool => exact inspectWith_of_isBare rfl
  | number => exact inspectWith_of_isBare rfl
  | invalid => exact inspectWith_of_isBare rfl

/-- What is shown begins with an opening byte, or with a byte of a word. -/
theorem exists_cons_of_inspectWith (printable : Char → Bool) (v : Value) :
    ∃ b t, v.inspectWith printable = b :: t ∧ isDelimiter b = false ∧
      isOpening b = !v.isBare := by
  by_cases hv : v.isBare = true
  · obtain ⟨b, t, h⟩ := List.exists_cons_of_ne_nil (inspect_ne_nil_of_isBare hv)
    have hb := isWordByte_of_mem_inspect hv (h ▸ List.mem_cons_self)
    rw [isWordByte, Bool.and_eq_true, Bool.not_eq_true', Bool.not_eq_true'] at hb
    exact ⟨b, t, (inspectWith_of_isBare hv).trans h, hb.1, by rw [hb.2, hv]; rfl⟩
  · cases v with
    | array vs => exact ⟨_, _, by rw [inspectWith_array, List.cons_append], rfl, rfl⟩
    | text s => exact ⟨_, _, by rw [inspectWith_text, Bytes.quotedWith, List.cons_append], rfl, rfl⟩
    | _ => exact absurd rfl hv

/-- Bare words and other values are told apart by the first byte. -/
theorem isBare_eq_of_append_eq (h : v.inspectWith printable ++ s = w.inspectWith printable ++ t) :
    v.isBare = w.isBare := by
  obtain ⟨b, r, hb, -, hopening⟩ := exists_cons_of_inspectWith printable v
  obtain ⟨b', r', hb', -, hopening'⟩ := exists_cons_of_inspectWith printable w
  rw [hb, hb'] at h
  obtain ⟨rfl, -⟩ := List.cons.inj h
  rw [hopening] at hopening'
  exact Bool.not_inj hopening'

/-- **What is shown tells the value**, with anything behind a delimiter. -/
def Told (printable : Char → Bool) (v : Value) : Prop :=
  ∀ w s t, (∀ b ∈ s.head?, isDelimiter b = true) → (∀ b ∈ t.head?, isDelimiter b = true) →
    v.inspectWith printable ++ s = w.inspectWith printable ++ t → v = w ∧ s = t

/-- A bare value is told from the others by the bytes up to the next delimiter. -/
theorem told_of_isBare (hv : v.isBare = true) : v.Told printable := by
  intro w s t hs ht h
  have hw : w.isBare = true := (isBare_eq_of_append_eq h).symm.trans hv
  have hdelimiter : ∀ {b}, isDelimiter b = true → isWordByte b = false := by
    intro b hb
    rw [isWordByte, hb]
    rfl
  rw [inspectWith_of_isBare hv, inspectWith_of_isBare hw] at h
  obtain ⟨hword, hst⟩ := append_inj_of_run (fun _ => isWordByte_of_mem_inspect hv)
    (fun _ => isWordByte_of_mem_inspect hw) (fun b hb => hdelimiter (hs b hb))
    (fun b hb => hdelimiter (ht b hb)) h
  exact ⟨eq_of_inspect_eq hv hw hword, hst⟩

/-- Arrays and texts are told apart by the first byte. -/
theorem inspectWith_array_append_ne (vs : List Value) (x : ByteArray) (s t : Bytes) :
    (array vs).inspectWith printable ++ s ≠ (text x).inspectWith printable ++ t := by
  rw [inspectWith_array, inspectWith_text]
  intro h
  exact absurd (List.cons.inj h).1 (by decide)

/-- A text is told by its quotes: what is between them reads back as the text, whatever follows. -/
theorem told_text (x : ByteArray) : (text x).Told printable := by
  intro w s t _ _ h
  cases w with
  | text y =>
    rw [inspectWith_text, inspectWith_text] at h
    obtain ⟨hxy, hst⟩ := Bytes.quotedWith_append_inj h
    exact ⟨congrArg text (Bytes.unpack_injective hxy), hst⟩
  | array ws => exact absurd h.symm (inspectWith_array_append_ne ws x t s)
  | _ => cases isBare_eq_of_append_eq h

/-- Values with a comma in front of each. -/
def tails (printable : Char → Bool) (vs : List Value) : Bytes :=
  vs.flatMap fun v => 0x2c :: Bytes.space :: v.inspectWith printable

theorem tails_cons (v : Value) (vs : List Value) : tails printable (v :: vs) =
    0x2c :: Bytes.space :: (v.inspectWith printable ++ tails printable vs) := by
  rw [tails, List.flatMap_cons]
  rfl

theorem tails_append (hvs : vs ≠ []) (s : Bytes) : tails printable vs ++ s = 0x2c :: Bytes.space ::
    (Bytes.join [0x2c, Bytes.space] (vs.map (inspectWith printable)) ++ s) := by
  cases vs with
  | nil => exact absurd rfl hvs
  | cons v vs =>
    rw [List.map_cons, Bytes.join_cons, tails_cons, List.flatMap_map]
    rfl

/-- Behind an element of an array comes a comma or the closing bracket. -/
theorem isDelimiter_head?_tails (vs : List Value) (s : Bytes) :
    ∀ b ∈ (tails printable vs ++ 0x5d :: s).head?, isDelimiter b = true := by
  intro b hb
  cases vs with
  | nil =>
    cases hb
    rfl
  | cons v vs =>
    rw [tails_cons] at hb
    cases hb
    rfl

/-- **Values behind commas are told**, up to a closing bracket, by induction on them. -/
theorem eq_of_tails (hvs : ∀ v ∈ vs, v.Told printable)
    (h : tails printable vs ++ 0x5d :: s = tails printable ws ++ 0x5d :: t) : vs = ws ∧ s = t := by
  induction vs generalizing ws with
  | nil =>
    cases ws with
    | nil => exact ⟨rfl, (List.cons.inj h).2⟩
    | cons w ws =>
      rw [tails_cons] at h
      exact absurd (List.cons.inj h).1 (by decide)
  | cons v vs ih =>
    obtain ⟨hv, hvs⟩ := List.forall_mem_cons.1 hvs
    cases ws with
    | nil =>
      rw [tails_cons] at h
      exact absurd (List.cons.inj h).1 (by decide)
    | cons w ws =>
      rw [tails_cons, tails_cons, List.cons_append, List.cons_append, List.cons_append,
        List.cons_append, List.append_assoc, List.append_assoc] at h
      -- both begin with a comma and a blank, and then the first values tell where they end
      have hshown := (List.cons.inj (List.cons.inj h).2).2
      obtain ⟨rfl, hrest⟩ := hv _ _ _ (isDelimiter_head?_tails vs s)
        (isDelimiter_head?_tails ws t) hshown
      obtain ⟨rfl, hst⟩ := ih hvs hrest
      exact ⟨rfl, hst⟩

/-- No value is shown with a closing bracket at its beginning, so an empty array is told from the
others. -/
theorem inspectWith_append_ne (v : Value) (s t : Bytes) :
    v.inspectWith printable ++ s ≠ 0x5d :: t := by
  intro h
  obtain ⟨b, r, hb, hdelimiter, -⟩ := exists_cons_of_inspectWith printable v
  rw [hb] at h
  rw [(List.cons.inj h).1] at hdelimiter
  cases hdelimiter

theorem join_append_ne (v : Value) (vs : List Value) (s t : Bytes) :
    Bytes.join [0x2c, Bytes.space] ((v :: vs).map (inspectWith printable)) ++ s ≠ 0x5d :: t := by
  rw [List.map_cons, Bytes.join_cons, List.append_assoc]
  exact inspectWith_append_ne v _ t

/-- An array is told when its elements are. The induction is on the elements, and their tails say
where each of them ends. -/
theorem told_array (hvs : ∀ v ∈ vs, v.Told printable) : (array vs).Told printable := by
  intro w s t _ _ h
  cases w with
  | array ws =>
    rw [inspectWith_array, inspectWith_array, List.cons_append, List.cons_append,
      List.append_assoc, List.append_assoc] at h
    have hjoined : Bytes.join [0x2c, Bytes.space] (vs.map (inspectWith printable)) ++ 0x5d :: s =
        Bytes.join [0x2c, Bytes.space] (ws.map (inspectWith printable)) ++ 0x5d :: t :=
      (List.cons.inj h).2
    rcases vs with _ | ⟨v, vs⟩ <;> rcases ws with _ | ⟨w, ws⟩
    · exact ⟨rfl, (List.cons.inj hjoined).2⟩
    · exact absurd hjoined.symm (join_append_ne w ws _ s)
    · exact absurd hjoined (join_append_ne v vs _ t)
    -- with a comma in front the first element is like the others
    · have htails :
          tails printable (v :: vs) ++ 0x5d :: s = tails printable (w :: ws) ++ 0x5d :: t := by
        rw [tails_append (List.cons_ne_nil v vs), tails_append (List.cons_ne_nil w ws), hjoined]
      obtain ⟨heq, hst⟩ := eq_of_tails hvs htails
      exact ⟨congrArg array heq, hst⟩
  | text x => exact absurd h (inspectWith_array_append_ne vs x s t)
  | _ => cases isBare_eq_of_append_eq h

/-- **Every value is told**: how it is shown says which value it is, up to equality. -/
theorem told (printable : Char → Bool) (v : Value) : v.Told printable := by
  induction v with
  | array vs ih => exact told_array ih
  | text s => exact told_text s
  | bool => exact told_of_isBare rfl
  | number => exact told_of_isBare rfl
  | invalid => exact told_of_isBare rfl

/-- What is shown stands on one line. -/
theorem newline_not_mem_inspectWith (hprintable : printable '\n' = false) (v : Value) :
    Bytes.newline ∉ v.inspectWith printable := by
  have hword : ∀ {v : Value}, v.isBare = true → Bytes.newline ∉ v.inspectWith printable := by
    intro v hv hmem
    rw [inspectWith_of_isBare hv] at hmem
    exact absurd (isWordByte_of_mem_inspect hv hmem) (by decide)
  induction v with
  | array vs ih =>
    rw [inspectWith_array, List.cons_append, List.mem_cons, List.mem_append, List.mem_singleton,
      Bytes.mem_join_iff (by decide)]
    rintro (hbracket | ⟨_, hshown, hmem⟩ | hbracket)
    · exact absurd hbracket (by decide)
    · obtain ⟨v, hv, rfl⟩ := List.mem_map.1 hshown
      exact ih v hv hmem
    · exact absurd hbracket (by decide)
  | text s =>
    rw [inspectWith_text]
    exact Bytes.newline_not_mem_quotedWith hprintable _
  | bool => exact hword rfl
  | number => exact hword rfl
  | invalid => exact hword rfl

end Inspect

end Value

/-! ### Listings -/

namespace Bindings

/-- The line of a variable, with any idea of printable characters. -/
def lineWith (printable : Char → Bool) (e : Bytes × Value) : Bytes :=
  e.1 ++ Bytes.ofString " = " ++ e.2.inspectWith printable

/-- Bindings as text, with any idea of printable characters. -/
def linesWith (printable : Char → Bool) (b : Bindings) : Bytes :=
  (b.entries.map (lineWith printable)).flatMap (· ++ [Bytes.newline])

/-- With the characters that are printable, this is how bindings are written. -/
theorem linesWith_isPrintable (b : Bindings) : b.linesWith isPrintable = b.write .text := by
  rw [linesWith, List.flatMap_map]
  refine List.flatMap_congr fun e _ => ?_
  rw [lineWith, Value.inspectWith_isPrintable]

section Listing

variable {printable : Char → Bool} {a b : Bindings} {es es' : List (Bytes × Value)}

/-- Names as they can be written in a script: letters and underscores. -/
def Named (es : List (Bytes × Value)) : Prop :=
  ∀ e ∈ es, ∀ b ∈ e.1, Bytes.isNameByte b = true

/-- **Lines tell the entries**, by induction on them: a name ends at the blank behind it. -/
theorem eq_of_lineWith (hes : Named es) (hes' : Named es')
    (h : (es.map (lineWith printable)).flatMap (· ++ [Bytes.newline]) =
      (es'.map (lineWith printable)).flatMap (· ++ [Bytes.newline])) : es = es' := by
  -- a blank is in no name, and a line feed in no value
  have hequals : ∀ r, ∀ b ∈ (Bytes.ofString " = " ++ r).head?, Bytes.isNameByte b = false := by
    intro r b hb
    cases hb
    decide
  have hnewline : ∀ r, ∀ b ∈ ([Bytes.newline] ++ r).head?, isDelimiter b = true := by
    intro r b hb
    cases hb
    decide
  induction es generalizing es' with
  | nil =>
    cases es' with
    | nil => rfl
    | cons e' es' =>
      rw [List.map_nil, List.flatMap_nil, List.map_cons, List.flatMap_cons] at h
      exact absurd h.symm (List.append_ne_nil_of_left_ne_nil (List.concat_ne_nil _ _) _)
  | cons e es ih =>
    obtain ⟨he, hes⟩ := List.forall_mem_cons.1 hes
    cases es' with
    | nil =>
      rw [List.map_nil, List.flatMap_nil, List.map_cons, List.flatMap_cons] at h
      exact absurd h (List.append_ne_nil_of_left_ne_nil (List.concat_ne_nil _ _) _)
    | cons e' es' =>
      obtain ⟨he', hes'⟩ := List.forall_mem_cons.1 hes'
      rw [List.map_cons, List.map_cons, List.flatMap_cons, List.flatMap_cons, lineWith, lineWith,
        List.append_assoc, List.append_assoc, List.append_assoc, List.append_assoc,
        List.append_assoc, List.append_assoc] at h
      obtain ⟨hname, hrest⟩ := append_inj_of_run he he' (hequals _) (hequals _) h
      have hvalues := List.append_cancel_left hrest
      obtain ⟨hvalue, hlines⟩ := Value.told printable e.2 _ _ _ (hnewline _) (hnewline _) hvalues
      rw [Prod.ext hname hvalue, ih hes hes' (List.append_cancel_left hlines)]

/-- There is one line for each variable, as no line feed is shown as it is. -/
theorem lines_linesWith (hprintable : printable '\n' = false) (ha : Named a.entries) :
    Bytes.lines (a.linesWith printable) = a.entries.map (lineWith printable) ++ [[]] := by
  refine Bytes.lines_flatMap (List.forall_mem_map.2 fun e he => ?_)
  rw [lineWith]
  refine List.not_mem_append (List.not_mem_append ?_ (by decide)) ?_
  · exact fun hmem => absurd (ha e he _ hmem) (by decide)
  · exact Value.newline_not_mem_inspectWith hprintable e.2

/-- What is written tells the variables with their values, and nothing else does. -/
theorem linesWith_eq_iff (ha : Named a.entries) (hb : Named b.entries) :
    a.linesWith printable = b.linesWith printable ↔ ∀ name, a.get? name = b.get? name := by
  constructor
  · intro h name
    rw [Table.get?, Table.get?, eq_of_lineWith ha hb h]
  · intro h
    rw [Table.ext_get? h]

end Listing

/-- **Bindings in writing are unambiguous**, when their names are made of letters and underscores:

* what is written is the same exactly when the same names have the same values;
* there is one line for each name, with its value, and nothing behind the last line;
* the lines are in the order of the names.

The first two hold with any idea of which characters are printable, as long as the line feed is
not. -/
theorem write_text_unambiguous {a b : Bindings}
    (ha : ∀ name ∈ a.names, ∀ x ∈ name, Bytes.isNameByte x = true)
    (hb : ∀ name ∈ b.names, ∀ x ∈ name, Bytes.isNameByte x = true) :
    (a.write .text = b.write .text ↔ ∀ name, a.get? name = b.get? name) ∧
      Bytes.lines (a.write .text) =
        a.entries.map (fun e => e.1 ++ Bytes.ofString " = " ++ e.2.inspect) ++ [[]] ∧
      a.names.Pairwise (fun n n' => Bytes.order n n' = .lt) ∧
      ∀ printable : Char → Bool, printable '\n' = false →
        (a.linesWith printable = b.linesWith printable ↔ ∀ name, a.get? name = b.get? name) ∧
          Bytes.lines (a.linesWith printable) = a.entries.map (lineWith printable) ++ [[]] := by
  have ha : Named a.entries := fun e he => ha e.1 (List.mem_map_of_mem he)
  have hb : Named b.entries := fun e he => hb e.1 (List.mem_map_of_mem he)
  refine ⟨?_, ?_, List.pairwise_map.2 a.sorted, fun printable hprintable =>
    ⟨linesWith_eq_iff ha hb, lines_linesWith hprintable ha⟩⟩
  · rw [← linesWith_isPrintable, ← linesWith_isPrintable]
    exact linesWith_eq_iff ha hb
  · rw [← linesWith_isPrintable, lines_linesWith (by decide) ha]
    refine congrArg (· ++ [[]]) (List.map_congr_left fun e _ => ?_)
    rw [lineWith, Value.inspectWith_isPrintable]

/-- An array of one text, in which there is what stands between two texts. -/
def oneText : Bindings :=
  Table.empty.insert (Bytes.ofString "x")
    (.array [.text (Bytes.pack (Bytes.ofString "a\", \"b\n"))])

/-- An array of two texts. -/
def twoTexts : Bindings :=
  Table.empty.insert (Bytes.ofString "x")
    (.array [.text (Bytes.pack (Bytes.ofString "a")), .text (Bytes.pack (Bytes.ofString "b\n"))])

/-- A text that looks like two of them, with the quotes and the comma in it, is not written as two.
-/
theorem write_text_unambiguous_oneText : oneText.write .text ≠ twoTexts.write .text ∧
    Bytes.lines (oneText.write .text) =
      [Bytes.ofString "x = [\"a\\\", \\\"b\\n\"]", []] := by
  obtain ⟨hiff, hlines, -⟩ := @write_text_unambiguous oneText twoTexts (by decide +kernel)
    (by decide +kernel)
  constructor
  · intro h
    have hx := hiff.1 h (Bytes.ofString "x")
    injection hx with hx
    injection hx with helements
    cases (List.cons.inj helements).2
  · rw [hlines]
    decide +kernel

end Bindings

end Scriptlet
