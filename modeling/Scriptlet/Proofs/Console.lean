import Mathlib.Data.List.DropRight
import Scriptlet.Console.Basic
import Scriptlet.Proofs.Text.Lines
import Scriptlet.Proofs.Text.Utf8

/-!
# What a console keeps

A console reacts to keys, typed text and changes of its window in any order, and most of these
touch the line and the panels only. Three parts of its state are kept in step with one another:
the **entries** that were run, the place of the one that is **called up**, and the **session**.
`Scriptlet.Console.Effect` says all that an event can do to the three: it runs one entry, or
resets the session, or leaves entries and session alone and at most moves to another entry.

From this it is seen by induction over the events that

* the place that is called up is the place of an entry;
* entries are only ever added at the end, and each is one that can be submitted;
* the session is the one in which just the entries since the last reset were run
  (`Scriptlet.Console.replay`).

An entry came out of the input line, so it fits into the line again: calling it up shows it as it
was, and walking back through the entries and forth again ends at the empty line.
-/

namespace Scriptlet

namespace Console

/-! ### Entries -/

/-- What an entry has to be like: it is not blank, no blank or tab ends it, it is no command, and
the input line can hold it. -/
structure IsEntry (entry : List Char) : Prop where
  /-- Something in it is not white space. -/
  not_blank : ∃ c ∈ entry, isBlank c = false
  /-- Its last character is neither a blank nor a tab. -/
  solid_end : ∀ c, entry.getLast? = some c → c ≠ ' ' ∧ c ≠ '\t'
  /-- It does not begin with a colon. -/
  no_command : entry.head? ≠ some ':'
  /-- It is not too long. -/
  fits : entry.length ≤ InputLine.limit
  /-- It holds nothing that a line may not hold. -/
  typable : ∀ c ∈ entry, InputLine.isTypable c = true

theorem prefix_of_entryOf (line : List Char) : entryOf line <+: line :=
  List.rdropWhile_prefix _ line

theorem getLast?_entryOf {line : List Char} {c : Char} (h : (entryOf line).getLast? = some c) :
    c ≠ ' ' ∧ c ≠ '\t' := by
  obtain ⟨hne, rfl⟩ := List.mem_getLast?_eq_getLast h
  have hlast := List.rdropWhile_last_not (fun c => c == ' ' || c == '\t') line hne
  simp only [Bool.or_eq_true, beq_iff_eq, not_or] at hlast
  exact hlast

/-- What the line holds is an entry when it can be submitted and is no command. -/
theorem isEntry_entryOf (line : InputLine) (hblank : (entryOf line.text).all isBlank = false)
    (hcommand : (entryOf line.text).head? ≠ some ':') : IsEntry (entryOf line.text) where
  not_blank := by
    simpa using hblank
  solid_end c := getLast?_entryOf
  no_command := hcommand
  fits := Nat.le_trans (prefix_of_entryOf line.text).length_le line.fits
  typable c hc := line.typable c ((prefix_of_entryOf line.text).subset hc)

/-- **A line submits an entry**: it is the entry and blanks and tabs behind it, and the entry is not
blank and no command. -/
structure Submits (line entry : List Char) : Prop where
  /-- Blanks and tabs at the end of the line are not part of the entry. -/
  trail : ∃ trail, line = entry ++ trail ∧ ∀ c ∈ trail, c = ' ' ∨ c = '\t'
  /-- All of them are left out. -/
  solid_end : ∀ c, entry.getLast? = some c → c ≠ ' ' ∧ c ≠ '\t'
  /-- Something in the entry is not white space. -/
  not_blank : ∃ c ∈ entry, isBlank c = false
  /-- The entry does not begin with a colon. -/
  no_command : entry.head? ≠ some ':'

/-- Blanks and tabs at the end of a line are all that an entry leaves out. -/
theorem entryOf_append {entry trail : List Char}
    (hsolid : ∀ c, entry.getLast? = some c → c ≠ ' ' ∧ c ≠ '\t')
    (htrail : ∀ c ∈ trail, c = ' ' ∨ c = '\t') : entryOf (entry ++ trail) = entry := by
  induction trail using List.reverseRecOn with
  | nil =>
    rw [List.append_nil]
    refine List.rdropWhile_eq_self_iff.2 fun hne => ?_
    obtain ⟨hblank, htab⟩ := hsolid _ (List.getLast?_eq_getLast_of_ne_nil hne)
    simp [hblank, htab]
  | append_singleton trail c ih =>
    have hc : (c == ' ' || c == '\t') = true := by
      rcases htrail c List.mem_concat_self with rfl | rfl <;> rfl
    rw [← List.append_assoc]
    change ((entry ++ trail) ++ [c]).rdropWhile (fun c => c == ' ' || c == '\t') = entry
    rw [List.rdropWhile_concat, if_pos hc]
    exact ih fun d hd => htrail d (List.mem_append_left _ hd)

/-- What an entry says: each pair of characters `\n` in it stands for a line end. -/
def expandLineEnds : List Char → List Char
  | '\\' :: 'n' :: cs => '\n' :: expandLineEnds cs
  | c :: cs => c :: expandLineEnds cs
  | [] => []

/-- The bytes of a backslash and of an n stand in no other characters, so pairs of them are pairs
of characters. -/
theorem entrySource_ofChars (entry : List Char) :
    entrySource (Bytes.ofChars entry) = Bytes.ofChars (expandLineEnds entry) := by
  unfold entrySource
  fun_induction expandLineEnds entry with
  | case1 cs ih =>
    show Bytes.replacePair Bytes.backslash 0x6e Bytes.newline
      (Bytes.backslash :: 0x6e :: Bytes.ofChars cs) = Bytes.newline :: Bytes.ofChars _
    rw [Bytes.replacePair, if_pos ⟨rfl, rfl⟩, ih]
  | case2 c cs hpair ih =>
    have hcons : ∀ ds, Bytes.ofChars (c :: ds) = String.utf8EncodeChar c ++ Bytes.ofChars ds :=
      fun _ => rfl
    rw [hcons, hcons, ← ih]
    -- a backslash without an n behind it stays; no other character has the byte of a backslash
    by_cases hc : c = '\\'
    · subst hc
      have hnext : ∀ b ∈ (Bytes.ofChars cs).head?, b ≠ 0x6e := by
        rintro b hb rfl
        cases cs with
        | nil => cases hb
        | cons d ds =>
          obtain ⟨a, t, ht⟩ := List.exists_cons_of_ne_nil (String.utf8EncodeChar_ne_nil (c := d))
          obtain rfl : a = 0x6e := by simpa [Bytes.ofChars, ht] using hb
          have hd : d = 'n' := Char.toNat_inj.1
            (Glyph.toNat_eq_of_mem_utf8EncodeChar (ht ▸ List.mem_cons_self) (by decide))
          exact hpair ds rfl (by rw [hd])
      rw [Bytes.replacePair_append (.inr hnext)]
      rfl
    · have hnone : ∀ b ∈ String.utf8EncodeChar c, b ≠ Bytes.backslash := by
        rintro b hb rfl
        exact hc (Char.toNat_inj.1 (Glyph.toNat_eq_of_mem_utf8EncodeChar hb (by decide)))
      rw [Bytes.replacePair_append (.inl fun b hb => hnone b (List.mem_of_getLast? hb)),
        Bytes.replacePair_of_forall hnone]
  | case3 => rfl

/-! ### Events -/

/-- Whether an event submits the command to reset the session: whether the line begins with one of
its two names. -/
def resets (c : Console) : Event → Bool
  | .key .submit =>
    let name := c.line.text.takeWhile fun ch => !isBlank ch
    name == ":reset".toList || name == ":r".toList
  | _ => false

/-- The word that a line begins with is that of the entry in it, which leaves out blanks only. -/
theorem takeWhile_entryOf (line : List Char) :
    ((entryOf line).takeWhile fun ch => !isBlank ch) = line.takeWhile fun ch => !isBlank ch := by
  induction line using List.reverseRecOn with
  | nil => rfl
  | append_singleton line ch ih =>
    change ((line ++ [ch]).rdropWhile fun ch => ch == ' ' || ch == '\t').takeWhile _ = _
    rw [List.rdropWhile_concat]
    split
    · rename_i hend
      have hblank : isBlank ch = true := by
        rw [Bool.or_eq_true, beq_iff_eq, beq_iff_eq] at hend
        rcases hend with rfl | rfl <;> rfl
      -- a blank does not go into the word, whether the word reaches up to it or not
      rw [List.takeWhile_append, List.takeWhile_cons_of_neg (by simp [hblank]), List.append_nil]
      refine Eq.trans ih (eq_comm.1 (ite_eq_right_iff.2 fun hlength => ?_))
      exact ((List.takeWhile_prefix _).eq_of_length hlength).symm
    · rfl

/-- The command in a line is the word it begins with. -/
theorem firstWord_ofChars {entry : List Char} (h : entry.head? = some ':') :
    Bytes.firstWord (Bytes.ofChars entry) =
      Bytes.ofChars (entry.takeWhile fun ch => !isBlank ch) := by
  cases entry with
  | nil => cases h
  | cons ch entry =>
    obtain rfl : ch = ':' := Option.some.inj h
    rw [Bytes.firstWord, Bytes.glyphs_ofChars, List.map_cons,
      List.dropWhile_cons_of_neg (by decide), ← List.map_cons, List.takeWhile_map,
      Bytes.ofGlyphs_map_char]
    rfl

/-- **What an event can do** to the entries, to the place that is called up and to the session,
and whether the session is reset. -/
inductive Effect (c c' : Console) : (reset : Bool) → Prop
  /-- An entry is run and kept. -/
  | runs (entry : List Char) (h : IsEntry entry) (entries : c'.entries = c.entries ++ [entry])
      (session : c'.session = (c.session.evaluate (Bytes.ofChars entry)).1)
      (recalled : c'.recalled = none) : Effect c c' false
  /-- The session is reset. -/
  | resets (entries : c'.entries = c.entries) (session : c'.session = c.session.reset)
      (recalled : c'.recalled = none) : Effect c c' true
  /-- Another entry is called up, if anything. -/
  | keeps (entries : c'.entries = c.entries) (session : c'.session = c.session)
      (recalled : ∀ place, c'.recalled = some place →
        place < c.entries.length ∨ ∃ above, c.recalled = some above ∧ place ≤ above) :
      Effect c c' false

/-- A change of the other parts has no effect on these. -/
theorem Effect.of_eq {c c' : Console} (entries : c'.entries = c.entries)
    (session : c'.session = c.session) (recalled : c'.recalled = c.recalled) :
    Effect c c' false :=
  .keeps entries session fun place h => .inr ⟨place, recalled ▸ h, Nat.le_refl place⟩

theorem effect_callUpOlder (c : Console) : Effect c c.callUpOlder false := by
  unfold callUpOlder
  split
  · exact .of_eq rfl rfl rfl
  · rename_i hentries
    have hpos : 0 < c.entries.length := by
      rw [List.length_pos_iff]
      simpa using hentries
    split
    -- nothing called up: the last entry is the next one
    · refine .keeps rfl rfl fun place h => .inl ?_
      obtain rfl : c.entries.length - 1 = place := Option.some.inj h
      omega
    · rename_i above habove
      refine .keeps rfl rfl fun place h => .inr ⟨above, habove, ?_⟩
      obtain rfl : above - 1 = place := Option.some.inj h
      omega

theorem effect_callUpNewer (c : Console) : Effect c c.callUpNewer false := by
  unfold callUpNewer
  split
  · exact .of_eq rfl rfl rfl
  · split
    · rename_i above habove hlt
      refine .keeps rfl rfl fun place h => .inl ?_
      obtain rfl : above + 1 = place := Option.some.inj h
      exact hlt
    · exact .keeps rfl rfl fun place h => by cases h

theorem effect_completeWord (c : Console) : Effect c c.completeWord false := by
  unfold completeWord
  split <;> exact .of_eq rfl rfl rfl

/-- The command to reset the session has two names. -/
theorem Command.ofName?_eq_reset_iff {name : Bytes} :
    Command.ofName? name = some .reset ↔
      name = Bytes.ofString ":reset" ∨ name = Bytes.ofString ":r" := by
  constructor
  · intro h
    unfold Command.ofName? at h
    iterate 3
      rcases ite_eq_iff.1 h with ⟨-, h⟩ | ⟨-, h⟩
      · cases h
    rcases ite_eq_iff.1 h with ⟨hname, -⟩ | ⟨-, h⟩
    · exact hname
    · rcases ite_eq_iff.1 h with ⟨-, h⟩ | ⟨-, h⟩ <;> cases h
  · rintro (rfl | rfl) <;> rfl

/-- A command resets the session when it has one of the two names, and else leaves session and
entries alone. -/
theorem effect_command (c : Console) {entry : List Char} (h : entry.head? = some ':') :
    let name := entry.takeWhile fun ch => !isBlank ch
    Effect c (c.command (Bytes.ofChars entry)).newLine
      (name == ":reset".toList || name == ":r".toList) := by
  intro name
  have hiff : (name == ":reset".toList || name == ":r".toList) = true ↔
      Command.ofName? (Bytes.ofChars name) = some .reset := by
    rw [Command.ofName?_eq_reset_iff, Bool.or_eq_true, beq_iff_eq, beq_iff_eq]
    exact or_congr Bytes.ofChars_injective.eq_iff.symm Bytes.ofChars_injective.eq_iff.symm
  rw [command, firstWord_ofChars h]
  by_cases hreset : Command.ofName? (Bytes.ofChars name) = some .reset
  · rw [hiff.2 hreset]
    simp only [name, hreset]
    exact .resets rfl rfl rfl
  · rw [Bool.eq_false_iff.2 fun h => hreset (hiff.1 h)]
    cases hk : Command.ofName? (Bytes.ofChars name) with
    | none => exact .keeps rfl rfl fun place h => by cases h
    | some k =>
      cases k with
      | reset => exact absurd hk hreset
      | help | clear | listVariables | quit => exact .keeps rfl rfl fun place h => by cases h

theorem effect_runEntry (c : Console) {entry : List Char} (h : IsEntry entry) :
    Effect c (c.runEntry entry).newLine false := by
  have hsession : (c.runEntry entry).newLine.session =
      (c.session.evaluate (Bytes.ofChars entry)).1 := by
    rcases hresult : c.session.evaluate (Bytes.ofChars entry) with ⟨session, result⟩
    simp only [runEntry, hresult]
    rfl
  exact .runs entry h rfl hsession rfl

/-- Submitting a line does one of all of these. The command is told by the word that the line begins
with. -/
theorem effect_submit (c : Console) : Effect c c.submit (c.resets (.key .submit)) := by
  rw [submit, resets]
  simp only [← takeWhile_entryOf c.line.text]
  by_cases hcommand : (entryOf c.line.text).head? = some ':'
  · have hblank : (entryOf c.line.text).all isBlank = false :=
      List.all_eq_false.2 ⟨':', List.mem_of_mem_head? hcommand, by decide⟩
    rw [if_neg (by simp [hblank]), if_pos hcommand]
    exact effect_command c hcommand
  · -- Both names begin with a colon, and the word that a line begins with is a beginning of it.
    have hname : ∀ name, name.head? = some ':' →
        (((entryOf c.line.text).takeWhile fun ch => !isBlank ch) == name) = false := by
      intro name hhead
      refine beq_eq_false_iff_ne.2 fun hword => hcommand ?_
      obtain ⟨rest, hrest⟩ := List.takeWhile_prefix (l := entryOf c.line.text) fun ch => !isBlank ch
      rw [← hrest, hword, List.head?_append, hhead]
      rfl
    rw [hname ":reset".toList rfl, hname ":r".toList rfl, if_neg hcommand, Bool.or_false]
    split
    · exact .of_eq rfl rfl rfl
    · rename_i hblank
      exact effect_runEntry c (isEntry_entryOf c.line (Bool.eq_false_iff.2 hblank) hcommand)

/-- An entry that is submitted is kept. -/
theorem entries_submit {c : Console} {entry : List Char} (h : Submits c.line.text entry) :
    (c.update (.key .submit)).entries = c.entries ++ [entry] := by
  obtain ⟨trail, hline, htrail⟩ := h.trail
  have hentry : entryOf c.line.text = entry := hline ▸ entryOf_append h.solid_end htrail
  obtain ⟨ch, hch, hnot⟩ := h.not_blank
  have hblank : entry.all isBlank = false := List.all_eq_false.2 ⟨ch, hch, by simp [hnot]⟩
  show c.submit.entries = _
  rw [submit]
  simp only [hentry]
  rw [if_neg (by simp [hblank]), if_neg h.no_command]
  rfl

/-- **Every event has one of the three effects.** -/
theorem effect_update (c : Console) (e : Event) : Effect c (c.update e) (c.resets e) := by
  cases e with
  | text s => exact .of_eq rfl rfl rfl
  | resize w => exact .of_eq rfl rfl rfl
  | key k =>
    cases k with
    | older => exact effect_callUpOlder c
    | newer => exact effect_callUpNewer c
    | complete => exact effect_completeWord c
    | submit => exact effect_submit c
    | quit | clear | listVariables | help | edit | idle => exact .of_eq rfl rfl rfl

/-! ### Runs -/

/-- The console after events, one after another. -/
def run (c : Console) (events : List Event) : Console :=
  events.foldl update c

/-- How many entries there were when the session was last reset by one of the events; `mark` when
none of them does. -/
def lastReset : Console → (mark : Nat) → List Event → Nat
  | _, mark, [] => mark
  | c, mark, e :: events =>
    (c.update e).lastReset (if c.resets e then c.entries.length else mark) events

/-- The session in which some entries were run, one after another and nothing else. Each is a source
once the line ends in it are expanded. -/
def replay (entries : List (List Char)) : Session :=
  entries.foldl (fun s entry => (s.exec none (Bytes.ofChars (expandLineEnds entry))).1)
    (.new (.ofRequest 1000000 0 false))

/-- **The three parts fit together**, when the first `mark` entries were run before the last
reset. -/
structure Coherent (c : Console) (mark : Nat) : Prop where
  /-- The place that is called up is that of an entry. -/
  recalled_lt : ∀ place, c.recalled = some place → place < c.entries.length
  /-- Every entry is one that can be submitted. -/
  entries : ∀ entry ∈ c.entries, IsEntry entry
  /-- There were not more entries than there are. -/
  mark_le : mark ≤ c.entries.length
  /-- The session is that of the later entries. -/
  session : c.session = replay (c.entries.drop mark)

/-- Running an entry is running the source that it says. -/
theorem session_evaluate (s : Session) (entry : List Char) :
    (s.evaluate (Bytes.ofChars entry)).1 =
      (s.exec none (Bytes.ofChars (expandLineEnds entry))).1 := by
  unfold Session.evaluate
  rw [entrySource_ofChars]
  generalize s.exec none (Bytes.ofChars (expandLineEnds entry)) = result
  rcases result with ⟨after, _ | _⟩ <;> rfl

/-- One more entry is run in the session that the others have left. -/
theorem replay_concat (entries : List (List Char)) (entry : List Char) :
    replay (entries ++ [entry]) =
      ((replay entries).exec none (Bytes.ofChars (expandLineEnds entry))).1 :=
  List.foldl_concat ..

/-- Running entries leaves the limits alone, so a reset starts over. -/
theorem reset_replay (entries : List (List Char)) : (replay entries).reset = replay [] := by
  suffices h : (replay entries).limits = .ofRequest 1000000 0 false by
    rw [Session.reset, h]
    rfl
  induction entries using List.reverseRecOn with
  | nil => rfl
  | append_singleton entries entry ih =>
    rw [replay_concat, Session.exec]
    split
    · exact ih
    · exact ih

theorem coherent_new : Coherent .new 0 where
  recalled_lt place h := by cases h
  entries entry h := by cases h
  mark_le := Nat.le_refl 0
  session := rfl

variable {c : Console} {mark : Nat}

/-- **One event keeps the three parts together.** -/
theorem Coherent.update (h : Coherent c mark) (e : Event) :
    Coherent (c.update e) (if c.resets e then c.entries.length else mark) := by
  have heffect := effect_update c e
  generalize c.resets e = reset at heffect
  cases heffect with
  | runs entry hentry entries session recalled =>
    -- the new entry comes after the reset, so it is replayed on top of the others
    refine ⟨?_, ?_, ?_, ?_⟩
    · intro place hplace
      rw [recalled] at hplace
      cases hplace
    · intro x hx
      rw [entries] at hx
      rcases List.mem_append.1 hx with hx | hx
      · exact h.entries x hx
      · exact List.mem_singleton.1 hx ▸ hentry
    · rw [entries, List.length_append]
      exact Nat.le_add_right_of_le h.mark_le
    · show (c.update e).session = replay ((c.update e).entries.drop mark)
      rw [session, session_evaluate, entries, h.session, List.drop_append_of_le_length h.mark_le,
        replay_concat]
  | resets entries session recalled =>
    -- no entry is later than the reset
    refine ⟨?_, ?_, ?_, ?_⟩
    · intro place hplace
      rw [recalled] at hplace
      cases hplace
    · rw [entries]
      exact h.entries
    · rw [entries]
      exact Nat.le_refl _
    · rw [session, entries, h.session, reset_replay]
      simp
  | keeps entries session recalled =>
    refine ⟨?_, ?_, ?_, ?_⟩
    · intro place hplace
      rw [entries]
      rcases recalled place hplace with hlt | ⟨above, habove, hle⟩
      · exact hlt
      · exact Nat.lt_of_le_of_lt hle (h.recalled_lt above habove)
    · rw [entries]
      exact h.entries
    · rw [entries]
      exact h.mark_le
    · rw [session, entries]
      exact h.session

/-- The parts stay together through a whole run. -/
theorem Coherent.run (h : Coherent c mark) (events : List Event) :
    Coherent (c.run events) (c.lastReset mark events) := by
  induction events generalizing c mark with
  | nil => exact h
  | cons e events ih => exact ih (h.update e)

/-- Entries are only added at the end. -/
theorem entries_prefix_update (c : Console) (e : Event) : c.entries <+: (c.update e).entries := by
  have heffect := effect_update c e
  generalize c.resets e = reset at heffect
  cases heffect with
  | runs entry _ entries => exact entries ▸ List.prefix_append _ _
  | resets entries => exact entries ▸ List.prefix_rfl
  | keeps entries => exact entries ▸ List.prefix_rfl

theorem entries_prefix_run (c : Console) (events : List Event) :
    c.entries <+: (c.run events).entries := by
  induction events generalizing c with
  | nil => exact List.prefix_rfl
  | cons e events ih => exact (entries_prefix_update c e).trans (ih (c.update e))

/-! ### Walking through the entries -/

theorem run_concat (c : Console) (events : List Event) (e : Event) :
    c.run (events ++ [e]) = (c.run events).update e :=
  List.foldl_concat ..

/-- A line that is set to what it can hold holds just that. -/
theorem text_setLine (c : Console) {s : List Char} (hfits : s.length ≤ InputLine.limit)
    (htypable : ∀ ch ∈ s, InputLine.isTypable ch = true) : (c.setLine s).line.text = s := by
  show (InputLine.typed s).take InputLine.limit = s
  rw [InputLine.typed_of_typable htypable, List.take_of_length_le hfits]

/-- An entry is called up as it was. -/
theorem getElem?_callUp (hentries : ∀ entry ∈ c.entries, IsEntry entry) {place : Nat}
    (hplace : place < c.entries.length) :
    c.entries[place]? = some (c.callUp place).line.text := by
  have hentry := hentries c.entries[place] (List.getElem_mem hplace)
  rw [callUp, List.getElem?_eq_getElem hplace, Option.getD_some,
    text_setLine _ hentry.fits hentry.typable]

theorem callUpOlder_of_none (hne : c.entries ≠ []) (h : c.recalled = none) :
    c.callUpOlder = c.callUp (c.entries.length - 1) := by
  rw [callUpOlder, if_neg (by simpa using hne)]
  simp only [h]

theorem callUpOlder_of_some (hne : c.entries ≠ []) {place : Nat} (h : c.recalled = some place) :
    c.callUpOlder = c.callUp (place - 1) := by
  rw [callUpOlder, if_neg (by simpa using hne)]
  simp only [h]

/-- **The way back.** When nothing is called up, going back `k` times calls up the entry `k`
places before the end, or the first one. -/
theorem older_run (hentries : ∀ entry ∈ c.entries, IsEntry entry) (hrecalled : c.recalled = none)
    (hne : c.entries ≠ []) {k : Nat} (hk : 1 ≤ k) :
    let place := c.entries.length - min k c.entries.length
    let up := c.run (List.replicate k (.key .older))
    up.entries = c.entries ∧ up.recalled = some place ∧
      c.entries[place]? = some up.line.text := by
  have hlength : 0 < c.entries.length := List.length_pos_iff.2 hne
  -- the first step calls up the last entry, and each further one the entry before, down to the
  -- first
  induction k, hk using Nat.le_induction with
  | base =>
    intro place up
    have hup : up = c.callUp place := by
      have hplace : place = c.entries.length - 1 := by omega
      rw [hplace]
      exact callUpOlder_of_none hne hrecalled
    rw [hup]
    exact ⟨rfl, rfl, getElem?_callUp hentries (by omega)⟩
  | succ k hk ih =>
    intro place up
    obtain ⟨hsame, hplaced, -⟩ := ih
    have hup : up = (c.run (List.replicate k (.key .older))).callUp place := by
      have hplace : place = c.entries.length - min k c.entries.length - 1 := by omega
      rw [hplace, ← callUpOlder_of_some (hsame ▸ hne) hplaced]
      show c.run (List.replicate (k + 1) _) = _
      rw [List.replicate_succ', run_concat]
      rfl
    have hlt : place < (c.run (List.replicate k (.key .older))).entries.length := by
      rw [hsame]
      omega
    have htext := getElem?_callUp (hsame ▸ hentries) hlt
    rw [hsame] at htext
    rw [hup]
    exact ⟨hsame, rfl, htext⟩

/-- **The way forth.** From an entry that is called up, going past the last entry ends at the empty
line. -/
theorem newer_run {place : Nat} (hplace : place < c.entries.length)
    (hrecalled : c.recalled = some place) :
    let down := c.run (List.replicate (c.entries.length - place) (.key .newer))
    down.recalled = none ∧ down.line.text = [] := by
  -- the induction is over the entries that follow the one that is called up
  obtain ⟨more, hmore⟩ : ∃ more, c.entries.length - place = more + 1 :=
    ⟨c.entries.length - place - 1, by omega⟩
  rw [hmore]
  induction more generalizing c place with
  | zero =>
    intro down
    have hdown : down = { c with recalled := none }.setLine [] := by
      show c.callUpNewer = _
      rw [callUpNewer]
      simp only [hrecalled]
      rw [if_neg (by omega)]
    rw [hdown]
    exact ⟨rfl, text_setLine _ (Nat.zero_le _) (by simp)⟩
  | succ more ih =>
    have hnext : c.callUpNewer = c.callUp (place + 1) := by
      rw [callUpNewer]
      simp only [hrecalled]
      rw [if_pos (by omega)]
    show let down := c.callUpNewer.run (List.replicate (more + 1) (.key .newer))
      down.recalled = none ∧ down.line.text = []
    rw [hnext]
    have hentries : (c.callUp (place + 1)).entries.length = c.entries.length := rfl
    exact ih (c := c.callUp (place + 1)) (by omega) rfl (by omega)

/-- **What a console keeps.** After any events:

* the place that is called up, if one is, is the place of an entry;
* every entry is not blank, does not end in a blank or a tab, and does not begin with a colon;
* whatever happens next, entries are only added at the end, and one that the line submits is added;
* the variables and the functions of the session are those of a new session in which the entries
  since the last reset were run;
* when nothing is called up and there are entries, going back `k` times shows the entry `k` places
  before the end, or the first one, and going forth as many entries leads to an empty line with
  nothing called up. -/
theorem console_keeps (events : List Event) :
    let c := run .new events
    (∀ place, c.recalled = some place → place < c.entries.length) ∧
    (∀ entry ∈ c.entries, (∃ ch ∈ entry, isBlank ch = false) ∧
      (∀ ch, entry.getLast? = some ch → ch ≠ ' ' ∧ ch ≠ '\t') ∧ entry.head? ≠ some ':') ∧
    (∀ more, c.entries <+: (c.run more).entries) ∧
    (∀ entry, Submits c.line.text entry →
      (c.update (.key .submit)).entries = c.entries ++ [entry]) ∧
    (let fresh := replay (c.entries.drop (lastReset .new 0 events))
     c.session.bindings = fresh.bindings ∧
       c.session.world.functions = fresh.world.functions) ∧
    (c.recalled = none → c.entries ≠ [] → ∀ k, 1 ≤ k →
      let n := c.entries.length
      let up := c.run (List.replicate k (.key .older))
      let down := up.run (List.replicate (min k n) (.key .newer))
      c.entries[n - min k n]? = some up.line.text ∧
        down.recalled = none ∧ down.line.text = []) := by
  intro c
  have hcoherent : Coherent c (lastReset .new 0 events) := coherent_new.run events
  refine ⟨hcoherent.recalled_lt, fun entry hentry => ?_, entries_prefix_run c,
    fun entry => entries_submit, ?_, ?_⟩
  · have h := hcoherent.entries entry hentry
    exact ⟨h.not_blank, h.solid_end, h.no_command⟩
  · intro fresh
    have hsession : c.session = fresh := hcoherent.session
    rw [hsession]
    exact ⟨rfl, rfl⟩
  · intro hrecalled hne k hk n up down
    obtain ⟨hentries, hup, htext⟩ := older_run hcoherent.entries hrecalled hne hk
    have hlength : 0 < c.entries.length := List.length_pos_iff.2 hne
    have hdown := newer_run (by rw [hentries]; omega) hup
    have hback : up.entries.length - (n - min k n) = min k n := by
      rw [hentries]
      omega
    rw [hback] at hdown
    exact ⟨htext, hdown⟩

end Console

end Scriptlet
