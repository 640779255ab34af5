import Mathlib.Algebra.Group.Nat.Defs
import Scriptlet.Proofs.Text.Utf8
import Scriptlet.Text.Quoted

/-!
# Quoted text can be read back

What is between the quotes can be read glyph by glyph: a backslash says which glyph follows, by a
letter or by a code in hexadecimal digits, of which there are as many as the letter in front of them
says; and anything else stands for itself. So no two texts are quoted the same, and the quote that
ends a quoted text can be found in whatever follows it (`Bytes.quotedWith_append_inj`).

Which characters are printable does not matter for that. Everything here is about texts quoted with
*any* idea of printable characters; only for a quoted text to stand on one line it has to exclude
the line feed (`Bytes.newline_not_mem_quotedWith`).
-/

namespace Scriptlet

/-! ### Hexadecimal digits -/

namespace Bytes

/-- The number that hexadecimal digits make. -/
def ofHex (s : Bytes) : Nat :=
  s.foldl (fun n b => 16 * n + (hexValue? b).getD 0) 0

theorem length_hex (w n : Nat) : (hex w n).length = w := by
  induction w generalizing n with
  | zero => rfl
  | succ w ih => rw [hex, List.length_append, ih, List.length_singleton]

/-- Hexadecimal digits are read back, but for those that were cut off. -/
theorem ofHex_hex (w n : Nat) : ofHex (hex w n) = n % 16 ^ w := by
  have hdigit : ∀ d < 16, (hexValue? (hexDigit d)).getD 0 = d := by decide
  induction w generalizing n with
  | zero => rw [Nat.pow_zero, Nat.mod_one]; rfl
  | succ w ih =>
    have hlast : n % 16 < 16 := Nat.mod_lt n (by decide)
    rw [hex, ofHex, List.foldl_append, ← ofHex, ih, List.foldl_cons, List.foldl_nil,
      hdigit _ hlast, Nat.pow_succ, Nat.mul_comm (16 ^ w), Nat.mod_mul, Nat.add_comm]

theorem isHexDigit_of_mem_hex {w n : Nat} {b : UInt8} (h : b ∈ hex w n) :
    (hexValue? b).isSome = true := by
  have hdigit : ∀ d < 16, (hexValue? (hexDigit d)).isSome = true := by decide
  induction w generalizing n with
  | zero => cases h
  | succ w ih =>
    rcases List.mem_append.1 h with h | h
    · exact ih h
    · rw [List.mem_singleton.1 h]
      exact hdigit _ (Nat.mod_lt n (by decide))

end Bytes

/-! ### One glyph -/

namespace Glyph

/-- One glyph between the quotes, with any idea of printable characters. -/
def quotedWith (printable : Char → Bool) : Glyph → Bytes
  | .stray b => Bytes.ofString "\\x" ++ Bytes.hex 2 b.toNat
  | .char c =>
    if c = '"' ∨ c = '\\' then Bytes.ofChars ['\\', c]
    else if printable c then String.utf8EncodeChar c
    else escapedChar c

theorem quotedWith_isPrintable (r : Glyph) : r.quotedWith isPrintable = r.quoted := by
  cases r <;> rfl

/-- The character that a letter after a backslash stands for. -/
def ofLetter (letter : UInt8) : Char :=
  match letter with
  | 0x61 => '\x07'
  | 0x62 => '\x08'
  | 0x66 => '\x0c'
  | 0x6e => '\n'
  | 0x72 => '\r'
  | 0x74 => '\t'
  | 0x76 => '\x0b'
  | b => Bytes.asciiChar b

/-- Reads what follows a backslash: the glyph, and the rest. -/
def unescape? : Bytes → Option (Glyph × Bytes)
  | [] => none
  | letter :: s =>
    if letter = 0x78 then
      let v := Bytes.ofHex (s.take 2)
      some (if v < 0x80 then .char (Char.ofNat v) else .stray (UInt8.ofNat v), s.drop 2)
    else if letter = 0x75 then some (.char (Char.ofNat (Bytes.ofHex (s.take 4))), s.drop 4)
    else if letter = 0x55 then some (.char (Char.ofNat (Bytes.ofHex (s.take 8))), s.drop 8)
    else some (.char (ofLetter letter), s)

/-- **Reads one glyph between the quotes**: the glyph, and the rest. -/
def unquote? : Bytes → Option (Glyph × Bytes)
  | [] => none
  | b :: s =>
    if b = Bytes.backslash then unescape? s
    else some (lead b s, s.drop ((lead b s).width - 1))

section Unquote

variable {printable : Char → Bool} {c letter : Char} {b : UInt8} {v : Nat}

theorem unquote?_backslash (s : Bytes) : unquote? (Bytes.backslash :: s) = unescape? s := by
  rw [unquote?, if_pos rfl]

theorem unescape?_hex (v : Nat) (s : Bytes) : unescape? (0x78 :: (Bytes.hex 2 v ++ s)) =
    some (if v % 256 < 0x80 then .char (Char.ofNat (v % 256)) else .stray (UInt8.ofNat (v % 256)),
      s) := by
  have hcode : Bytes.ofHex ((Bytes.hex 2 v ++ s).take 2) = v % 256 := by
    rw [List.take_left' (Bytes.length_hex 2 v)]
    exact Bytes.ofHex_hex 2 v
  rw [unescape?, if_pos rfl, hcode, List.drop_left' (Bytes.length_hex 2 v)]

theorem unescape?_shortCode (hv : v < 0x10000) (s : Bytes) :
    unescape? (0x75 :: (Bytes.hex 4 v ++ s)) = some (.char (Char.ofNat v), s) := by
  have hcode : Bytes.ofHex ((Bytes.hex 4 v ++ s).take 4) = v := by
    rw [List.take_left' (Bytes.length_hex 4 v)]
    exact (Bytes.ofHex_hex 4 v).trans (Nat.mod_eq_of_lt hv)
  rw [unescape?, if_neg (by decide), if_pos rfl, hcode, List.drop_left' (Bytes.length_hex 4 v)]

theorem unescape?_longCode (hv : v < 0x110000) (s : Bytes) :
    unescape? (0x55 :: (Bytes.hex 8 v ++ s)) = some (.char (Char.ofNat v), s) := by
  have hcode : Bytes.ofHex ((Bytes.hex 8 v ++ s).take 8) = v := by
    rw [List.take_left' (Bytes.length_hex 8 v)]
    exact (Bytes.ofHex_hex 8 v).trans (Nat.mod_eq_of_lt (Nat.lt_trans hv (by decide)))
  rw [unescape?, if_neg (by decide), if_neg (by decide), if_pos rfl, hcode,
    List.drop_left' (Bytes.length_hex 8 v)]

/-- A letter stands for one control character. -/
theorem ofLetter_of_controlLetter? (h : controlLetter? c = some letter) :
    ∃ b, String.utf8EncodeChar letter = [b] ∧
      (b ≠ 0x78 ∧ b ≠ 0x75 ∧ b ≠ 0x55 ∧ b ≠ Bytes.newline) ∧ ofLetter b = c := by
  rw [controlLetter?] at h
  have hc : c = Char.ofNat c.toNat := c.ofNat_toNat.symm
  generalize c.toNat = v at h hc
  subst hc
  split at h
  case h_8 => cases h
  all_goals
    cases h
    exact ⟨_, rfl, by decide, rfl⟩

theorem ofChars_backslash (hb : String.utf8EncodeChar c = [b]) :
    Bytes.ofChars ['\\', c] = [Bytes.backslash, b] := by
  rw [Bytes.ofChars, List.flatMap_cons, List.flatMap_singleton, hb]
  rfl

/-- What stands for a character that is not printable can be read back. -/
theorem unquote?_escapedChar (c : Char) (s : Bytes) :
    unquote? (escapedChar c ++ s) = some (.char c, s) := by
  rw [escapedChar]
  split
  · rename_i letter hletter
    obtain ⟨b, hb, ⟨hx, hu, hU, -⟩, hc⟩ := ofLetter_of_controlLetter? hletter
    rw [ofChars_backslash hb, List.cons_append, unquote?_backslash, List.singleton_append,
      unescape?, if_neg hx, if_neg hu, if_neg hU, hc]
  · dsimp only
    split
    · rename_i hlt
      have hread := unescape?_hex c.toNat s
      rw [Nat.mod_eq_of_lt (Nat.lt_trans hlt (by decide)), if_pos hlt, c.ofNat_toNat] at hread
      exact (unquote?_backslash _).trans hread
    · split
      · rename_i hlt
        have hread := unescape?_shortCode hlt s
        rw [c.ofNat_toNat] at hread
        exact (unquote?_backslash _).trans hread
      · have hread := unescape?_longCode (toNat_lt c) s
        rw [c.ofNat_toNat] at hread
        exact (unquote?_backslash _).trans hread

/-- A character that stands for itself is read as itself. -/
theorem unquote?_utf8EncodeChar (hc : c ≠ '\\') (s : Bytes) :
    unquote? (String.utf8EncodeChar c ++ s) = some (.char c, s) := by
  cases hbytes : String.utf8EncodeChar c with
  | nil => exact absurd hbytes String.utf8EncodeChar_ne_nil
  | cons b t =>
    have hlead : lead b (t ++ s) = .char c := by
      rw [lead, lead?_of_utf8EncodeChar hbytes]
    have hb : b ≠ Bytes.backslash := by
      rintro rfl
      rw [Bytes.lead_of_lt (by decide)] at hlead
      exact hc (Glyph.char.inj hlead).symm
    have hlength : t.length = c.utf8Size - 1 := by
      rw [← String.length_utf8EncodeChar, hbytes, List.length_cons, Nat.add_sub_cancel]
    rw [List.cons_append, unquote?, if_neg hb, hlead, width, List.drop_left' hlength]

/-- **A glyph between the quotes can be read back**, whatever follows. -/
theorem unquote?_quotedWith (printable : Char → Bool) {r : Glyph}
    (hr : ∀ b, r = .stray b → 0x80 ≤ b.toNat) (s : Bytes) :
    unquote? (r.quotedWith printable ++ s) = some (r, s) := by
  cases r with
  | stray b =>
    have hb := hr b rfl
    have hread := unescape?_hex b.toNat s
    rw [Nat.mod_eq_of_lt b.toNat_lt, if_neg (Nat.not_lt.2 hb), UInt8.ofNat_toNat] at hread
    exact (unquote?_backslash _).trans hread
  | char c =>
    rw [quotedWith]
    split
    · rename_i hc
      rcases hc with rfl | rfl <;> rfl
    · rename_i hc
      split
      · exact unquote?_utf8EncodeChar (fun heq => hc (.inr heq)) s
      · exact unquote?_escapedChar c s

/-- No glyph is quoted by a text that begins with a quote. -/
theorem quotedWith_append_ne (printable : Char → Bool) {r : Glyph}
    (hr : ∀ b, r = .stray b → 0x80 ≤ b.toNat) (s t : Bytes) :
    r.quotedWith printable ++ s ≠ Bytes.doubleQuote :: t := by
  intro heq
  have hread := unquote?_quotedWith printable hr s
  rw [heq, unquote?, if_neg (by decide), Bytes.lead_of_lt (by decide)] at hread
  obtain ⟨rfl, -⟩ := Prod.mk.inj (Option.some.inj hread)
  exact absurd (List.cons.inj heq).1 (by decide)

/-- No line feed is in what stands for a glyph, unless it is printable. -/
theorem newline_not_mem_quotedWith (hprintable : printable '\n' = false) (r : Glyph) :
    Bytes.newline ∉ r.quotedWith printable := by
  have hhex : ∀ w v, Bytes.newline ∉ Bytes.hex w v :=
    fun w v hmem => absurd (Bytes.isHexDigit_of_mem_hex hmem) (by decide)
  have hcode : ∀ s : String, Bytes.newline ∉ Bytes.ofString s →
      ∀ w v, Bytes.newline ∉ Bytes.ofString s ++ Bytes.hex w v :=
    fun s hs w v => List.not_mem_append hs (hhex w v)
  cases r with
  | stray b => exact hcode "\\x" (by decide) 2 b.toNat
  | char c =>
    rw [quotedWith]
    split
    · rename_i hc
      rcases hc with rfl | rfl <;> decide
    split
    · rename_i hc
      intro hmem
      -- the only character with the byte of a line feed is the line feed
      have hnewline : c = '\n' := by
        rw [← c.ofNat_toNat, toNat_eq_of_mem_utf8EncodeChar hmem (by decide)]
        rfl
      rw [hnewline, hprintable] at hc
      cases hc
    · rw [escapedChar]
      split
      · rename_i letter hletter
        obtain ⟨b, hb, ⟨-, -, -, hne⟩, -⟩ := ofLetter_of_controlLetter? hletter
        rw [ofChars_backslash hb, List.mem_cons, List.mem_singleton]
        exact not_or.2 ⟨by decide, hne.symm⟩
      · dsimp only
        split
        · exact hcode "\\x" (by decide) 2 c.toNat
        · split
          · exact hcode "\\u" (by decide) 4 c.toNat
          · exact hcode "\\U" (by decide) 8 c.toNat

end Unquote

end Glyph

/-! ### Texts -/

namespace Bytes

/-- A quoted text, with any idea of printable characters. -/
def quotedWith (printable : Char → Bool) (s : Bytes) : Bytes :=
  doubleQuote :: (glyphs s).flatMap (Glyph.quotedWith printable) ++ [doubleQuote]

theorem quotedWith_isPrintable (s : Bytes) : quotedWith isPrintable s = quoted s := by
  rw [quotedWith, quoted, funext Glyph.quotedWith_isPrintable]

section QuotedWith

variable {printable : Char → Bool} {s t u v : Bytes} {rs rs' : List Glyph}

/-- **Glyphs are told by what is between the quotes**, by induction on them. -/
theorem flatMap_quotedWith_append_inj (hrs : ∀ b, .stray b ∈ rs → 0x80 ≤ b.toNat)
    (hrs' : ∀ b, .stray b ∈ rs' → 0x80 ≤ b.toNat)
    (h : rs.flatMap (Glyph.quotedWith printable) ++ doubleQuote :: u =
      rs'.flatMap (Glyph.quotedWith printable) ++ doubleQuote :: v) : rs = rs' ∧ u = v := by
  induction rs generalizing rs' with
  | nil =>
    cases rs' with
    | nil => exact ⟨rfl, (List.cons.inj h).2⟩
    | cons r' rs' =>
      rw [List.flatMap_cons, List.append_assoc] at h
      exact absurd h.symm
        (Glyph.quotedWith_append_ne printable (fun b hb => hrs' b (hb ▸ List.mem_cons_self)) _ _)
  | cons r rs ih =>
    have hr : ∀ b, r = .stray b → 0x80 ≤ b.toNat := fun b hb => hrs b (hb ▸ List.mem_cons_self)
    rw [List.flatMap_cons, List.append_assoc] at h
    cases rs' with
    | nil => exact absurd h (Glyph.quotedWith_append_ne printable hr _ _)
    | cons r' rs' =>
      rw [List.flatMap_cons, List.append_assoc] at h
      -- one glyph is read back from either side, and what is left of the two is the same
      have hread := Glyph.unquote?_quotedWith printable hr
        (rs.flatMap (Glyph.quotedWith printable) ++ doubleQuote :: u)
      rw [h, Glyph.unquote?_quotedWith printable fun b hb => hrs' b (hb ▸ List.mem_cons_self)]
        at hread
      obtain ⟨rfl, hrest⟩ := Prod.mk.inj (Option.some.inj hread)
      obtain ⟨rfl, huv⟩ := ih (fun b hb => hrs b (List.mem_cons_of_mem _ hb))
        (fun b hb => hrs' b (List.mem_cons_of_mem _ hb)) hrest.symm
      exact ⟨rfl, huv⟩

/-- **A text is told by its quoted form**, and so is where that ends. -/
theorem quotedWith_append_inj (h : quotedWith printable s ++ u = quotedWith printable t ++ v) :
    s = t ∧ u = v := by
  rw [quotedWith, quotedWith, List.cons_append, List.cons_append, List.append_assoc,
    List.append_assoc] at h
  obtain ⟨hglyphs, huv⟩ := flatMap_quotedWith_append_inj
    (fun b => le_of_stray_mem_glyphsFrom) (fun b => le_of_stray_mem_glyphsFrom) (List.cons.inj h).2
  exact ⟨glyphs_injective hglyphs, huv⟩

/-- A quoted text stands on one line. -/
theorem newline_not_mem_quotedWith (hprintable : printable '\n' = false) (s : Bytes) :
    newline ∉ quotedWith printable s := by
  rw [quotedWith, List.cons_append, List.mem_cons, List.mem_append, List.mem_flatMap,
    List.mem_singleton]
  rintro (hquote | ⟨r, -, hr⟩ | hquote)
  · exact absurd hquote (by decide)
  · exact Glyph.newline_not_mem_quotedWith hprintable r hr
  · exact absurd hquote (by decide)

end QuotedWith

end Bytes

end Scriptlet
