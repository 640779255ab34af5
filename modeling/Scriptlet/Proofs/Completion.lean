import Mathlib.Data.List.DropRight
import Scriptlet.Proofs.Console
import Scriptlet.Proofs.Parsing.Footholds
import Scriptlet.Proofs.Running.Names
import Scriptlet.Proofs.Session
import Scriptlet.Proofs.Text.Utf8

/-!
# Completing only extends the line

A line ends in a word when a run of lower-case letters and underscores stands at its end
(`EndsInWord`). It is found as the last of the words of the line, which is what the other characters
leave of it; only when the line goes on behind that word, it ends in none
(`Completing.complete_of_endsInWord`, `Completing.complete_of_not_endsInWord`).

What can come of the names that begin with the word is one of three things (`Session.Completing`):
nothing, the one name there is, or a list of several. Only the second changes the line. The name
comes in the place of the word, as much of it as there is room for, so the line is only extended.

A name is put into the line as it is, since all names that a session knows are runs of lower-case
letters and underscores (`World.Named`). That is so for names that were read by the parser,
and nothing else is ever bound or defined.
-/

namespace Scriptlet

/-! ### The names of a session -/

/-- **All variables and functions have names of the language.** -/
structure World.Named (w : World) : Prop where
  /-- Variables have. -/
  bindings : ∀ x ∈ w.bindings.names, IsName x
  /-- Functions have. -/
  functions : ∀ f ∈ w.functions.names, IsName f

theorem World.named_empty : World.Named .empty :=
  ⟨fun _ h => (by cases h), fun _ h => (by cases h)⟩

theorem Clause.WellFormed.isName {c : Clause Position} (h : c.WellFormed) {x : Bytes}
    (hx : x ∈ c.binds) : IsName x := by
  cases c with
  | assign mark name value =>
    rw [List.mem_singleton.1 hx]
    exact h.1
  | ret mark value => cases hx

theorem Stmt.WellFormed.isName {s : Stmt Position} (h : s.WellFormed) {x : Bytes}
    (hx : x ∈ s.mayBind) : IsName x := by
  cases s with
  | clause c => exact Clause.WellFormed.isName h hx
  | func name f => cases hx
  | cond mark condition body | loop mark condition body =>
    obtain ⟨c, hc, hx⟩ := List.mem_flatMap.1 hx
    exact (h.2.2 c hc).isName hx

/-- **A script that can be read keeps names names.** -/
theorem World.Named.runStatements {w w' : World} {settings : Settings}
    {ss : List (Stmt Position)} {m n : Meter} (hw : w.Named) (hss : ∀ s ∈ ss, s.WellFormed)
    (h : Scriptlet.runStatements loop settings w ss m = .done w' n) : w'.Named := by
  obtain ⟨log, hlog, rfl⟩ := runStatements_eq_done_iff.1 h
  constructor
  · intro x hx
    rcases Table.mem_names_insertAll_iff.1 hx with hx | hx
    · exact hw.bindings x hx
    · obtain ⟨s, hs, hx⟩ := List.mem_flatMap.1 (hlog.names.2 hx)
      exact (hss s hs).isName hx
  · intro name hname
    obtain ⟨f, hf⟩ := Table.mem_names_iff.1 hname
    rcases get?_foldl_define hf with hf | hf
    · exact hw.functions name (Table.mem_names_iff.2 ⟨f, hf⟩)
    · exact (hss _ hf).1

/-- Running a source in a session keeps names names, also when it fails. -/
theorem Session.named_exec {s : Session} (hs : s.world.Named) (cancelAt : Option Nat)
    (source : Bytes) : (s.exec cancelAt source).1.world.Named := by
  rcases s.exec_cases cancelAt source with ⟨script, w, m, hparse, hrun, hexec⟩ | ⟨e, hexec⟩
  · have hwf : Script.WellFormed script.statements :=
      (Script.wellFormed_map _).1 (spells_of_parse hparse).1
    rw [hexec]
    exact hs.runStatements hwf.2 hrun
  · rw [hexec]
    exact hs

theorem Console.named_replay (entries : List (List Char)) : (replay entries).world.Named := by
  induction entries using List.reverseRecOn with
  | nil => exact World.named_empty
  | append_singleton entries entry ih =>
    rw [replay_concat]
    exact Session.named_exec ih none _

/-- **A console knows only names of the language**, whatever was done with it. -/
theorem Console.named_run (events : List Event) : (run .new events).session.world.Named := by
  rw [(coherent_new.run events).session]
  exact named_replay _

/-! ### The word at the end of a line -/

/-- **A line ends in a word**: in a run of lower-case letters and underscores that is not empty and
stands behind none of them. -/
structure EndsInWord (line before word : List Char) : Prop where
  /-- The line is made of these two. -/
  eq : line = before ++ word
  /-- The word has letters. -/
  ne_nil : word ≠ []
  /-- It has nothing else. -/
  letters : ∀ ch ∈ word, 'a' ≤ ch ∧ ch ≤ 'z' ∨ ch = '_'
  /-- It begins where the letters begin. -/
  boundary : ∀ ch, before.getLast? = some ch → ¬('a' ≤ ch ∧ ch ≤ 'z' ∨ ch = '_')

namespace Completing

variable {s : Session} {names : List Bytes} {word before line : List Char} {name : Bytes} {c : Char}

theorem isNameChar_iff : isNameChar c = true ↔ 'a' ≤ c ∧ c ≤ 'z' ∨ c = '_' := by
  simp [isNameChar, Glyph.isNameChar]

theorem isNameChar_eq_false_iff : isNameChar c = false ↔ ¬('a' ≤ c ∧ c ≤ 'z' ∨ c = '_') := by
  rw [Bool.eq_false_iff, ne_eq, isNameChar_iff]

/-- The name characters at the end of a line are the word it ends in. -/
theorem endsInWord_of_getLast? (hc : line.getLast? = some c) (hname : isNameChar c = true) :
    EndsInWord line (line.rdropWhile isNameChar) (line.rtakeWhile isNameChar) where
  eq := List.rdropWhile_append_rtakeWhile.symm
  ne_nil h := by
    obtain ⟨hne, rfl⟩ := List.mem_getLast?_eq_getLast hc
    exact List.rtakeWhile_eq_nil_iff.1 h hne hname
  letters ch hch := isNameChar_iff.1 (List.mem_rtakeWhile_imp hch)
  boundary ch hch := by
    obtain ⟨hne, rfl⟩ := List.mem_getLast?_eq_getLast hch
    exact fun h => List.rdropWhile_last_not isNameChar line hne (isNameChar_iff.2 h)

/-- A line that ends in no word is empty or ends in some other character. -/
theorem isNameChar_getLast?_of_not_endsInWord (h : ¬∃ before word, EndsInWord line before word)
    (hc : line.getLast? = some c) : isNameChar c = false :=
  Bool.eq_false_iff.2 fun hname => h ⟨_, _, endsInWord_of_getLast? hc hname⟩

/-! ### Finding it -/

/-- The words on either side of a character that is in none. -/
theorem wordsFrom_append_cons (u : List Char) (hc : isNameChar c = false) (v : List Char) :
    wordsFrom word (u ++ c :: v) = wordsFrom word u ++ wordsFrom [] v := by
  induction u generalizing word with
  | nil => rw [List.nil_append, wordsFrom.eq_2, hc, if_neg Bool.false_ne_true, wordsFrom]
  | cons d u ih =>
    rw [List.cons_append, wordsFrom, wordsFrom, ih, ih]
    split
    · rfl
    · rw [List.append_assoc]

/-- A word goes on as long as there are name characters. -/
theorem wordsFrom_of_forall {u : List Char} (hu : ∀ c ∈ u, isNameChar c = true) :
    wordsFrom word u = closed (word ++ u) := by
  induction u generalizing word with
  | nil => rw [wordsFrom, List.append_nil]
  | cons d u ih =>
    obtain ⟨hd, hu⟩ := List.forall_mem_cons.1 hu
    rw [wordsFrom, if_pos hd, ih hu, List.append_assoc, List.singleton_append]

/-- Every word is a run of name characters, and not empty. -/
theorem of_mem_wordsFrom {w : List Char} (hword : ∀ c ∈ word, isNameChar c = true)
    (hw : w ∈ wordsFrom word line) : w ≠ [] ∧ ∀ c ∈ w, isNameChar c = true := by
  have hclosed : ∀ {u : List Char}, (∀ c ∈ u, isNameChar c = true) → w ∈ closed u →
      w ≠ [] ∧ ∀ c ∈ w, isNameChar c = true := by
    intro u hu hw
    rw [closed] at hw
    split at hw
    · cases hw
    · rename_i hne
      obtain rfl := List.mem_singleton.1 hw
      exact ⟨fun h => hne (List.isEmpty_iff.2 h), hu⟩
  -- what has been read of a word is kept in `word`, so the induction is over the rest of the line
  induction line generalizing word with
  | nil => exact hclosed hword hw
  | cons c line ih =>
    rw [wordsFrom] at hw
    split at hw
    · rename_i hc
      refine ih (fun d hd => ?_) hw
      rcases List.mem_append.1 hd with hd | hd
      · exact hword d hd
      · exact List.mem_singleton.1 hd ▸ hc
    · rcases List.mem_append.1 hw with hw | hw
      · exact hclosed hword hw
      · exact ih (List.forall_mem_nil _) hw

/-- **The last word of a line is the word it ends in**, if it ends in one. -/
theorem getLast?_words (h : EndsInWord line before word) : (words line).getLast? = some word := by
  have hletters : ∀ c ∈ word, isNameChar c = true := fun c hc => isNameChar_iff.2 (h.letters c hc)
  have hclosed : closed word = [word] :=
    if_neg fun hempty => h.ne_nil (List.isEmpty_iff.1 hempty)
  rw [h.eq, words]
  -- the character before the word, if there is one, closes whatever was read before
  rcases List.eq_nil_or_concat' before with rfl | ⟨u, c, rfl⟩
  · rw [List.nil_append, wordsFrom_of_forall hletters, List.nil_append, hclosed]
    rfl
  · have hc : isNameChar c = false :=
      isNameChar_eq_false_iff.2 (h.boundary c List.getLast?_concat)
    rw [List.append_assoc, List.singleton_append, wordsFrom_append_cons u hc,
      wordsFrom_of_forall hletters, List.nil_append, hclosed, List.getLast?_concat]

/-- No word stands at the end of a line that does not end in one. -/
theorem not_isSuffixOf_of_not_endsInWord (h : ¬∃ before word, EndsInWord line before word)
    (hword : word ∈ words line) : ¬word <:+ line := by
  rintro ⟨u, hu⟩
  obtain ⟨hne, hall⟩ := of_mem_wordsFrom (List.forall_mem_nil _) hword
  have hlast : line.getLast? = some (word.getLast hne) := by
    rw [← hu, List.getLast?_append_of_ne_nil _ hne, List.getLast?_eq_getLast_of_ne_nil hne]
  have hnot := isNameChar_getLast?_of_not_endsInWord h hlast
  rw [hall _ (List.getLast_mem hne)] at hnot
  cases hnot

/-! ### The names that begin with it -/

/-- **A name completes a word** in a session: it is a word of the language, a variable or a
function, and begins with the word. -/
structure Completes (s : Session) (word name : Bytes) : Prop where
  /-- The name is known. -/
  known : name ∈ ["func", "while", "if", "return", "true", "false", "and", "or", "length",
      "starts_with"].map Bytes.ofString ∨ name ∈ s.bindings.names ∨ name ∈ s.functions
  /-- It begins with the word. -/
  begins : word <+: name

/-- The words of the language look like names. -/
theorem isName_of_mem_languageWords (h : name ∈ languageWords) : IsName name := by
  have hall : languageWords.all fun w => !w.isEmpty && w.all Bytes.isNameByte := by decide
  have hname := List.all_eq_true.1 hall name h
  rw [Bool.and_eq_true, Bool.not_eq_true', List.isEmpty_eq_false_iff, List.all_eq_true] at hname
  exact hname

/-- Whatever completes a word is a name of the language. -/
theorem Completes.isName {word : Bytes} (hs : s.world.Named) (h : Completes s word name) :
    IsName name := by
  rcases h.known with hname | hname | hname
  · exact isName_of_mem_languageWords hname
  · exact hs.bindings name hname
  · exact hs.functions name hname

theorem nodup_eraseDups (names : List Bytes) : names.eraseDups.Nodup := by
  induction hn : names.length using Nat.strongRecOn generalizing names with
  | ind n ih =>
    cases names with
    | nil => exact List.nodup_nil
    | cons name names =>
      rw [List.eraseDups_cons, List.nodup_cons]
      refine ⟨by simp, ih _ ?_ _ rfl⟩
      rw [← hn]
      exact Nat.lt_succ_of_le (List.length_filter_le _ _)

theorem nodup_matching (names : List Bytes) (word : Bytes) : (matching names word).Nodup :=
  nodup_eraseDups _

/-- The list that is made of the known names holds those that complete the word. -/
theorem mem_matching_iff {word : Bytes} :
    name ∈ matching (candidates s) word ↔ Completes s word name := by
  have hbegins : Bytes.beginsWith name word = true ↔ word <+: name := by
    rw [Bytes.beginsWith_eq_true_iff]
    exact exists_congr fun r => eq_comm
  rw [matching, List.mem_eraseDups, List.mem_filter, hbegins, candidates, List.mem_append,
    List.mem_append, or_assoc]
  exact ⟨fun h => ⟨h.1, h.2⟩, fun h => ⟨h.known, h.begins⟩⟩

end Completing

open Completing

/-- **What can come of completing the word that a line ends in.** -/
inductive Session.Completing (s : Session) (before word : List Char) : Completions → Prop
  /-- No name begins with the word. -/
  | none (h : ∀ name, ¬Completes s (Bytes.ofChars word) name) : Completing s before word .none
  /-- One name begins with it. -/
  | one {name : Bytes} (completes : Completes s (Bytes.ofChars word) name)
    (unique : ∀ other, Completes s (Bytes.ofChars word) other → other = name) :
    Completing s before word (.one before name)
  /-- Several names begin with it. -/
  | many {names : List Bytes} (nodup : names.Nodup) (several : 2 ≤ names.length)
    (mem_iff : ∀ name, name ∈ names ↔ Completes s (Bytes.ofChars word) name) :
    Completing s before word (.many names)

namespace Completing

variable {s : Session} {before word line : List Char}

/-- **Completing the word that a line ends in has one of the three results.** -/
theorem complete_of_endsInWord (s : Session) (h : EndsInWord line before word) :
    s.Completing before word (s.complete line) := by
  have hsuffix : word.isSuffixOf line = true :=
    List.isSuffixOf_iff_suffix.2 ⟨before, h.eq.symm⟩
  have hbefore : line.take (line.length - word.length) = before := by
    rw [h.eq, List.length_append, Nat.add_sub_cancel, List.take_left]
  have hmem := fun name => @mem_matching_iff s name (Bytes.ofChars word)
  have hnodup := nodup_matching (candidates s) (Bytes.ofChars word)
  simp only [Session.complete, getLast?_words h, hsuffix, if_true, hbefore]
  generalize matching (candidates s) (Bytes.ofChars word) = names at hmem hnodup
  match names with
  | [] => exact .none fun name hname => List.not_mem_nil ((hmem name).2 hname)
  | [name] =>
    exact .one ((hmem name).1 List.mem_cons_self)
      fun other hother => List.mem_singleton.1 ((hmem other).2 hother)
  | _ :: _ :: names => exact .many hnodup (Nat.le_add_left 2 names.length) hmem

/-- **A line that ends in no word is not completed.** -/
theorem complete_of_not_endsInWord (s : Session)
    (h : ¬∃ before word, EndsInWord line before word) : s.complete line = .none := by
  unfold Session.complete
  split
  · rfl
  · rename_i word hword
    have hsuffix : ¬word.isSuffixOf line = true := fun hsuffix =>
      not_isSuffixOf_of_not_endsInWord h (List.mem_of_getLast? hword)
        (List.isSuffixOf_iff_suffix.1 hsuffix)
    rw [if_neg hsuffix]

end Completing

/-! ### Names in a line -/

/-- A letter can be typed. -/
theorem isTypable_asciiChar {b : UInt8} (hb : Bytes.isNameByte b = true) :
    InputLine.isTypable (Bytes.asciiChar b) = true := by
  have hcode := Bytes.toNat_asciiChar (Grammar.lt_of_isNameByte b hb)
  simp only [Bytes.isNameByte, Bool.or_eq_true, Bool.and_eq_true, decide_eq_true_eq, beq_iff_eq,
    UInt8.le_iff_toNat_le, ← UInt8.toNat_inj, UInt8.reduceToNat] at hb
  have hreplacement : Bytes.asciiChar b ≠ Glyph.replacement := by
    intro h
    rw [h] at hcode
    have hlarge : Glyph.replacement.toNat = 0xfffd := rfl
    omega
  simp only [InputLine.isTypable, InputLine.isControl, hcode, Bool.and_eq_true,
    Bool.not_eq_true', Bool.or_eq_false_iff, Bool.and_eq_false_iff, decide_eq_false_iff_not,
    bne_iff_ne]
  exact ⟨by omega, hreplacement⟩

/-- **A name is typed as it is.** -/
theorem isTypable_of_mem_chars {name : Bytes} (h : ∀ b ∈ name, Bytes.isNameByte b = true)
    {c : Char} (hc : c ∈ Bytes.chars name) : InputLine.isTypable c = true := by
  rw [Bytes.chars, Bytes.glyphs_of_ascii fun b hb => Grammar.lt_of_isNameByte b (h b hb),
    List.map_map] at hc
  obtain ⟨b, hb, rfl⟩ := List.mem_map.1 hc
  exact isTypable_asciiChar (h b hb)

namespace Console

variable {c : Console} {before word : List Char} {name : Bytes}

/-- **The line with a name in the place of the word it ended in** holds as much of that as there is
room for, and begins with what it held. -/
theorem text_setLine_completed (hnamed : c.session.world.Named)
    (h : EndsInWord c.line.text before word)
    (hname : Completes c.session (Bytes.ofChars word) name) :
    (c.setLine (before ++ Bytes.chars name)).line.text =
        (before ++ Bytes.chars name).take InputLine.limit ∧
      c.line.text <+: (before ++ Bytes.chars name).take InputLine.limit := by
  constructor
  · have htypable : ∀ ch ∈ before ++ Bytes.chars name, InputLine.isTypable ch = true := by
      intro ch hch
      rcases List.mem_append.1 hch with hch | hch
      · exact c.line.typable ch (h.eq ▸ List.mem_append_left word hch)
      · exact isTypable_of_mem_chars (hname.isName hnamed).2 hch
    show (InputLine.typed _).take InputLine.limit = _
    rw [InputLine.typed_of_typable htypable]
  · obtain ⟨missing, rfl⟩ := hname.begins
    rw [List.prefix_take_iff]
    refine ⟨?_, c.line.fits⟩
    rw [Bytes.chars_ofChars_append, ← List.append_assoc, ← h.eq]
    exact List.prefix_append _ _

/-! ### What the key does -/

theorem completeWord_of_none (h : c.session.complete c.line.text = .none) : c.completeWord = c := by
  rw [completeWord, h]

theorem completeWord_of_one (h : c.session.complete c.line.text = .one before name) :
    c.completeWord = c.setLine (before ++ Bytes.chars name) := by
  rw [completeWord, h]

theorem completeWord_of_many {names : List Bytes}
    (h : c.session.complete c.line.text = .many names) :
    c.completeWord = c.display [] (Bytes.ofString "Completions: " ++
      Bytes.join (Bytes.ofString ", ") names) false := by
  rw [completeWord, h]

/-- Of two names or more, one is not the given one. -/
theorem exists_ne_of_nodup {names : List Bytes} (hnodup : names.Nodup) (h : 2 ≤ names.length)
    (name : Bytes) : ∃ other ∈ names, other ≠ name := by
  match names with
  | a :: b :: names =>
    by_cases ha : a = name
    · have hne : a ≠ b := fun hab => (List.nodup_cons.1 hnodup).1 (hab ▸ List.mem_cons_self)
      exact ⟨b, List.mem_cons_of_mem a List.mem_cons_self, fun hb => hne (ha.trans hb.symm)⟩
    · exact ⟨a, List.mem_cons_self, ha⟩

/-- What the key does when the line ends in a word. -/
theorem completeWord_of_endsInWord (hnamed : c.session.world.Named)
    (h : EndsInWord c.line.text before word) :
    let c' := c.completeWord
    let Fits := Completes c.session (Bytes.ofChars word)
    c.line.text <+: c'.line.text ∧
    (c'.line.text ≠ c.line.text → ∃ name, Fits name ∧ (∀ other, Fits other → other = name) ∧
      c'.line.text = (before ++ Bytes.chars name).take InputLine.limit) ∧
    (∀ name, Fits name → (∀ other, Fits other → other = name) →
      c'.line.text = (before ++ Bytes.chars name).take InputLine.limit ∧
        c'.transcript = c.transcript) ∧
    (∀ a b, Fits a → Fits b → a ≠ b → c'.line.text = c.line.text ∧
      ∃ listed, listed.Nodup ∧ (∀ name, name ∈ listed ↔ Fits name) ∧
        c'.transcript = c.transcript ++ [⟨[], ⟨Bytes.ofString "Completions: " ++
          Bytes.join (Bytes.ofString ", ") listed, false⟩⟩]) ∧
    ((∀ name, ¬Fits name) → c' = c) := by
  intro c' Fits
  have hcase := complete_of_endsInWord c.session h
  generalize hresult : c.session.complete c.line.text = result at hcase
  cases hcase with
  | none hnone =>
    have hc' : c' = c := completeWord_of_none hresult
    rw [hc']
    exact ⟨List.prefix_rfl, fun h => absurd rfl h, fun name hname => absurd hname (hnone name),
      fun a b ha => absurd ha (hnone a), fun _ => rfl⟩
  | @one name hname hunique =>
    have hc' : c' = c.setLine (before ++ Bytes.chars name) := completeWord_of_one hresult
    obtain ⟨htext, hprefix⟩ := text_setLine_completed hnamed h hname
    rw [← hc'] at htext
    refine ⟨htext ▸ hprefix, fun _ => ⟨name, hname, hunique, htext⟩, fun other hother _ => ?_,
      fun a b ha hb hne => ?_, fun hnone => absurd hname (hnone name)⟩
    · rw [hunique other hother, htext, hc']
      exact ⟨rfl, rfl⟩
    · exact absurd ((hunique a ha).trans (hunique b hb).symm) hne
  | @many names hnodup hseveral hmem =>
    -- no single name can fit, since there are two that do
    have hc' : c' = c.display [] (Bytes.ofString "Completions: " ++
        Bytes.join (Bytes.ofString ", ") names) false := completeWord_of_many hresult
    obtain ⟨first, hfirst⟩ := List.exists_mem_of_length_pos (by omega : 0 < names.length)
    rw [hc']
    refine ⟨List.prefix_rfl, fun h => absurd rfl h, fun name hname hunique => ?_,
      fun a b _ _ _ => ⟨rfl, names, hnodup, hmem, rfl⟩,
      fun hnone => absurd ((hmem first).1 hfirst) (hnone first)⟩
    obtain ⟨other, hother, hne⟩ := exists_ne_of_nodup hnodup hseveral name
    exact absurd (hunique other ((hmem other).1 hother)) hne

/-- The key changes the line and the transcript only. -/
theorem completeWord_keeps (c : Console) : c.completeWord.session = c.session ∧
    c.completeWord.entries = c.entries ∧ c.completeWord.recalled = c.recalled := by
  unfold completeWord
  split <;> exact ⟨rfl, rfl, rfl⟩

/-- **Completing only extends the line.** Whatever has been done with a console, the key that
completes a word leaves the session, the entries and the place that is called up as they are, and
the line begins with what it was. The names are those of the language, of the variables and of the
functions.

* If the line changes, it ended in a word, one name and no other begins with that word, and in the
  new line the name stands in its place, cut to 500 characters.
* If the line ends in a word and one name only begins with it, this is the new line, and nothing is
  shown.
* If the line ends in a word and several names begin with it, the line is what it was, and one item
  more in the transcript lists all of them, each once.
* If the line ends in no word, or in one with which no name begins, nothing changes at all. -/
theorem completing_only_extends (events : List Event) :
    let c := run .new events
    let c' := c.update (.key .complete)
    let old := c.line.text
    let Fits := fun word => Completes c.session (Bytes.ofChars word)
    (c'.session = c.session ∧ c'.entries = c.entries ∧ c'.recalled = c.recalled) ∧
    old <+: c'.line.text ∧
    (c'.line.text ≠ old → ∃ before word name, EndsInWord old before word ∧
      Fits word name ∧ (∀ other, Fits word other → other = name) ∧
      c'.line.text = (before ++ Bytes.chars name).take 500) ∧
    (∀ before word, EndsInWord old before word →
      (∀ name, Fits word name → (∀ other, Fits word other → other = name) →
        c'.line.text = (before ++ Bytes.chars name).take 500 ∧ c'.transcript = c.transcript) ∧
      (∀ a b, Fits word a → Fits word b → a ≠ b → c'.line.text = old ∧
        ∃ listed, listed.Nodup ∧ (∀ name, name ∈ listed ↔ Fits word name) ∧
          c'.transcript = c.transcript ++ [⟨[], ⟨Bytes.ofString "Completions: " ++
            Bytes.join (Bytes.ofString ", ") listed, false⟩⟩]) ∧
      ((∀ name, ¬Fits word name) → c' = c)) ∧
    ((¬∃ before word, EndsInWord old before word) → c' = c) := by
  intro c c' old Fits
  have hnamed : c.session.world.Named := named_run events
  -- without a word at the end of the line the key does nothing at all
  have hnoWord : (¬∃ before word, EndsInWord old before word) → c' = c := fun h =>
    completeWord_of_none (complete_of_not_endsInWord c.session h)
  refine ⟨completeWord_keeps c, ?_, fun hne => ?_, fun before word h => ?_, hnoWord⟩
  · by_cases hends : ∃ before word, EndsInWord old before word
    · obtain ⟨before, word, h⟩ := hends
      exact (completeWord_of_endsInWord hnamed h).1
    · exact hnoWord hends ▸ List.prefix_rfl
  · by_cases hends : ∃ before word, EndsInWord old before word
    · obtain ⟨before, word, h⟩ := hends
      obtain ⟨name, hname⟩ := (completeWord_of_endsInWord hnamed h).2.1 hne
      exact ⟨before, word, name, h, hname⟩
    · exact absurd (congrArg (·.line.text) (hnoWord hends)) hne
  · exact (completeWord_of_endsInWord hnamed h).2.2

end Console

end Scriptlet
