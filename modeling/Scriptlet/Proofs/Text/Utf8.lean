import Scriptlet.Proofs.Text.Plain

/-!
# Characters in UTF-8

Glyphs are read from bytes, and written to bytes. A character begins where its bytes stand
(`Glyph.lead?_eq_some_iff`): the bytes of one character are read as it, whatever comes behind them,
and only they are. So the glyphs of a text make the text again (`Bytes.ofGlyphs_glyphs`), and a text
is told by its glyphs.
-/

namespace Scriptlet

namespace Glyph

variable {a b : UInt8} {s : Bytes} {c : Char} {low v n : Nat}

/-! ### The bytes of a character -/

/-- A code is that of a character when there is one, and is not written in more bytes than it needs.
-/
theorem scalar?_eq_some_iff : scalar? low v = some c ↔ c.toNat = v ∧ low ≤ v := by
  rw [scalar?]
  constructor
  · intro h
    by_cases hvalid : v.isValidChar
    · rw [dif_pos hvalid] at h
      by_cases hlow : low ≤ v
      · rw [if_pos hlow] at h
        cases h
        exact ⟨rfl, hlow⟩
      · rw [if_neg hlow] at h
        cases h
    · rw [dif_neg hvalid] at h
      cases h
  · rintro ⟨rfl, hlow⟩
    have hvalid : c.toNat.isValidChar := c.valid
    rw [dif_pos hvalid, if_pos hlow]
    rfl

theorem toNat_lt (c : Char) : c.toNat < 0x110000 := by
  have hvalid : c.toNat.isValidChar := c.valid
  rw [Nat.isValidChar] at hvalid
  omega

/-- A byte behind the first, which carries six bits. -/
def tail (n : Nat) : UInt8 :=
  UInt8.ofNat (n % 64 + 0x80)

theorem toNat_tail (n : Nat) : (tail n).toNat = n % 64 + 0x80 :=
  UInt8.toNat_ofNat_of_lt' (Nat.lt_of_lt_of_le (by omega : n % 64 + 0x80 < 192) (by decide))

theorem isTail_iff : isTail b = true ↔ 0x80 ≤ b.toNat ∧ b.toNat ≤ 0xbf := by
  rw [isTail, Bool.and_eq_true, decide_eq_true_eq, decide_eq_true_eq, UInt8.le_iff_toNat_le,
    UInt8.le_iff_toNat_le]
  rfl

theorem isTail_tail (n : Nat) : isTail (tail n) = true := by
  rw [isTail_iff, toNat_tail]
  omega

theorem tailBits_eq (b : UInt8) : tailBits b = b.toNat - 128 := rfl

theorem tailBits_tail (n : Nat) : tailBits (tail n) = n % 64 := by
  have hbits := tailBits_eq (tail n)
  have htail := toNat_tail n
  omega

theorem tailBits_lt (h : isTail b = true) : tailBits b < 64 := by
  have hbits := tailBits_eq b
  have hb := (isTail_iff.1 h).2
  omega

/-- A byte that carries the last bits of a number is the tail of it. -/
theorem tail_eq (h : isTail b = true) (hn : n % 64 = tailBits b) : tail n = b := by
  have hbits := tailBits_eq b
  have hb := (isTail_iff.1 h).1
  have htail := toNat_tail n
  exact UInt8.toNat_inj.1 (by omega)

theorem ofNat_add_sub {k : Nat} (h : k ≤ a.toNat) (hn : n = a.toNat - k) :
    UInt8.ofNat (n + k) = a := by
  rw [hn, Nat.sub_add_cancel h, UInt8.ofNat_toNat]

/-- Below 80 in hexadecimal a character is one byte. -/
theorem utf8EncodeChar_one (h : c.toNat < 0x80) :
    String.utf8EncodeChar c = [UInt8.ofNat c.toNat] := by
  rw [String.utf8EncodeChar]
  exact if_pos (Nat.le_of_lt_succ h)

/-- Below 800 it is two. -/
theorem utf8EncodeChar_two (h : 0x80 ≤ c.toNat) (h' : c.toNat < 0x800) :
    String.utf8EncodeChar c = [UInt8.ofNat (c.toNat / 64 + 0xc0), tail c.toNat] := by
  have hv : c.val.toNat = c.toNat := rfl
  have hlead : c.toNat / 64 % 32 = c.toNat / 64 := by omega
  rw [String.utf8EncodeChar, hv, if_neg (by omega), if_pos (by omega), hlead]
  rfl

/-- Below 10000 it is three. -/
theorem utf8EncodeChar_three (h : 0x800 ≤ c.toNat) (h' : c.toNat < 0x10000) :
    String.utf8EncodeChar c =
      [UInt8.ofNat (c.toNat / 4096 + 0xe0), tail (c.toNat / 64), tail c.toNat] := by
  have hv : c.val.toNat = c.toNat := rfl
  have hlead : c.toNat / 4096 % 16 = c.toNat / 4096 := by omega
  rw [String.utf8EncodeChar, hv, if_neg (by omega), if_neg (by omega), if_pos (by omega), hlead]
  rfl

theorem utf8EncodeChar_four (h : 0x10000 ≤ c.toNat) :
    String.utf8EncodeChar c = [UInt8.ofNat (c.toNat / 262144 + 0xf0), tail (c.toNat / 4096),
      tail (c.toNat / 64), tail c.toNat] := by
  have hv : c.val.toNat = c.toNat := rfl
  have hlead : c.toNat / 262144 % 8 = c.toNat / 262144 := by
    have hc := toNat_lt c
    omega
  rw [String.utf8EncodeChar, hv, if_neg (by omega), if_neg (by omega), if_neg (by omega), hlead]
  rfl

theorem toNat_ofNat_of_lt (h : n < 0x100) : (UInt8.ofNat n).toNat = n :=
  UInt8.toNat_ofNat_of_lt' h

/-- A longer character is a byte that is no character of its own, and bytes that begin none. -/
theorem exists_tails_of_le (h : 0x80 ≤ c.toNat) :
    ∃ a t, String.utf8EncodeChar c = a :: t ∧ 0x80 ≤ a.toNat ∧ ∀ x ∈ t, isTail x = true := by
  have hc := toNat_lt c
  rcases Nat.lt_or_ge c.toNat 0x800 with h₂ | h₂
  · refine ⟨_, _, utf8EncodeChar_two h h₂, ?_, by simp [isTail_tail]⟩
    rw [toNat_ofNat_of_lt (by omega)]
    omega
  rcases Nat.lt_or_ge c.toNat 0x10000 with h₃ | h₃
  · refine ⟨_, _, utf8EncodeChar_three h₂ h₃, ?_, by simp [isTail_tail]⟩
    rw [toNat_ofNat_of_lt (by omega)]
    omega
  · refine ⟨_, _, utf8EncodeChar_four h₃, ?_, by simp [isTail_tail]⟩
    rw [toNat_ofNat_of_lt (by omega)]
    omega

/-- The bytes of a character behind its first one begin no character. -/
theorem isTail_of_utf8EncodeChar {t : Bytes} (h : String.utf8EncodeChar c = a :: t) :
    ∀ x ∈ t, isTail x = true := by
  rcases Nat.lt_or_ge c.toNat 0x80 with h₁ | h₁
  · rw [utf8EncodeChar_one h₁] at h
    obtain ⟨-, rfl⟩ := List.cons.inj h
    exact List.forall_mem_nil _
  · obtain ⟨a', t', h', -, htails⟩ := exists_tails_of_le h₁
    obtain ⟨-, rfl⟩ := List.cons.inj (h'.symm.trans h)
    exact htails

/-- A byte that is a character of its own stands in the bytes of no other one. -/
theorem toNat_eq_of_mem_utf8EncodeChar (hb : b ∈ String.utf8EncodeChar c) (hlt : b.toNat < 0x80) :
    c.toNat = b.toNat := by
  rcases Nat.lt_or_ge c.toNat 0x80 with h | h
  · rw [utf8EncodeChar_one h, List.mem_singleton] at hb
    rw [hb, toNat_ofNat_of_lt (by omega)]
  · obtain ⟨a, t, henc, ha, htails⟩ := exists_tails_of_le h
    have hle : 0x80 ≤ b.toNat := by
      rw [henc] at hb
      rcases List.mem_cons.1 hb with rfl | hb
      · exact ha
      · exact (isTail_iff.1 (htails b hb)).1
    exact absurd hlt (Nat.not_lt.2 hle)

/-! ### Reading a character -/

/-- What is read as a character begins with its bytes. The cases are the forms by their length. -/
theorem exists_append_of_lead? (h : lead? a s = some c) :
    ∃ r, a :: s = String.utf8EncodeChar c ++ r := by
  simp only [lead?, UInt8.lt_iff_toNat_lt] at h
  split at h
  · rename_i ha
    obtain ⟨hc, -⟩ := scalar?_eq_some_iff.1 h
    -- one byte is its own code
    refine ⟨s, ?_⟩
    rw [utf8EncodeChar_one (hc ▸ ha), hc, UInt8.ofNat_toNat]
    rfl
  split at h
  · cases h
  split at h
  · rename_i ha₁ ha₂ ha
    have ha₂ : 0xc0 ≤ a.toNat := Nat.not_lt.1 ha₂
    have ha : a.toNat < 0xe0 := ha
    split at h
    · rename_i b s
      split at h
      · rename_i hb
        obtain ⟨hc, hlow⟩ := scalar?_eq_some_iff.1 h
        have hbits := tailBits_lt hb
        -- five bits of the first byte and six of the second
        refine ⟨s, ?_⟩
        rw [utf8EncodeChar_two (by omega) (by omega), tail_eq hb (by omega),
          ofNat_add_sub ha₂ (by omega)]
        rfl
      · cases h
    · cases h
  split at h
  · rename_i ha₁ ha₂ ha₃ ha
    have ha₃ : 0xe0 ≤ a.toNat := Nat.not_lt.1 ha₃
    have ha : a.toNat < 0xf0 := ha
    split at h
    · rename_i b d s
      split at h
      · rename_i htails
        obtain ⟨hb, hd⟩ := Bool.and_eq_true_iff.1 htails
        obtain ⟨hc, hlow⟩ := scalar?_eq_some_iff.1 h
        have hbits₁ := tailBits_lt hb
        have hbits₂ := tailBits_lt hd
        -- four bits of the first byte and twelve of the others
        refine ⟨s, ?_⟩
        rw [utf8EncodeChar_three (by omega) (by omega), tail_eq hb (by omega),
          tail_eq hd (by omega), ofNat_add_sub ha₃ (by omega)]
        rfl
      · cases h
    · cases h
  split at h
  · rename_i ha₁ ha₂ ha₃ ha₄ ha
    have ha₄ : 0xf0 ≤ a.toNat := Nat.not_lt.1 ha₄
    split at h
    · rename_i b d e s
      split at h
      · rename_i htails
        obtain ⟨htails, he⟩ := Bool.and_eq_true_iff.1 htails
        obtain ⟨hb, hd⟩ := Bool.and_eq_true_iff.1 htails
        obtain ⟨hc, hlow⟩ := scalar?_eq_some_iff.1 h
        have hbits₁ := tailBits_lt hb
        have hbits₂ := tailBits_lt hd
        have hbits₃ := tailBits_lt he
        -- three bits of the first byte and eighteen of the others
        refine ⟨s, ?_⟩
        rw [utf8EncodeChar_four (by omega), tail_eq hb (by omega),
          tail_eq hd (by omega), tail_eq he (by omega), ofNat_add_sub ha₄ (by omega)]
        rfl
      · cases h
    · cases h
  · cases h

/-- The bytes of a character are read as it. -/
theorem lead?_of_utf8EncodeChar {t : Bytes} (h : String.utf8EncodeChar c = a :: t) (s : Bytes) :
    lead? a (t ++ s) = some c := by
  have hc := toNat_lt c
  -- the code says how many bytes there are, and the first of them says so too
  rcases Nat.lt_or_ge c.toNat 0x80 with h₁ | h₁
  · rw [utf8EncodeChar_one h₁] at h
    obtain ⟨rfl, rfl⟩ := List.cons.inj h
    have ha := toNat_ofNat_of_lt (Nat.lt_trans h₁ (by decide))
    simp only [lead?, UInt8.lt_iff_toNat_lt, ha, UInt8.reduceToNat]
    rw [if_pos h₁, scalar?_eq_some_iff]
    exact ⟨rfl, Nat.zero_le _⟩
  rcases Nat.lt_or_ge c.toNat 0x800 with h₂ | h₂
  · rw [utf8EncodeChar_two h₁ h₂] at h
    obtain ⟨rfl, rfl⟩ := List.cons.inj h
    have ha := toNat_ofNat_of_lt (show c.toNat / 64 + 0xc0 < 0x100 by omega)
    simp only [lead?, UInt8.lt_iff_toNat_lt, ha, List.cons_append, isTail_tail, tailBits_tail,
      UInt8.reduceToNat]
    rw [if_neg (by omega), if_neg (by omega), if_pos (by omega), if_pos trivial,
      scalar?_eq_some_iff]
    omega
  rcases Nat.lt_or_ge c.toNat 0x10000 with h₃ | h₃
  · rw [utf8EncodeChar_three h₂ h₃] at h
    obtain ⟨rfl, rfl⟩ := List.cons.inj h
    have ha := toNat_ofNat_of_lt (show c.toNat / 4096 + 0xe0 < 0x100 by omega)
    simp only [lead?, UInt8.lt_iff_toNat_lt, ha, List.cons_append, isTail_tail, tailBits_tail,
      UInt8.reduceToNat, Bool.and_true]
    rw [if_neg (by omega), if_neg (by omega), if_neg (by omega), if_pos (by omega), if_pos trivial,
      scalar?_eq_some_iff]
    omega
  · rw [utf8EncodeChar_four h₃] at h
    obtain ⟨rfl, rfl⟩ := List.cons.inj h
    have ha := toNat_ofNat_of_lt (show c.toNat / 262144 + 0xf0 < 0x100 by omega)
    simp only [lead?, UInt8.lt_iff_toNat_lt, ha, List.cons_append, isTail_tail, tailBits_tail,
      UInt8.reduceToNat, Bool.and_true]
    rw [if_neg (by omega), if_neg (by omega), if_neg (by omega), if_neg (by omega),
      if_pos (by omega), if_pos trivial, scalar?_eq_some_iff]
    omega

/-- **A character is read where its bytes stand**, and nowhere else. -/
theorem lead?_eq_some_iff : lead? a s = some c ↔ ∃ r, a :: s = String.utf8EncodeChar c ++ r := by
  refine ⟨exists_append_of_lead?, ?_⟩
  rintro ⟨r, h⟩
  cases hc : String.utf8EncodeChar c with
  | nil => exact absurd hc String.utf8EncodeChar_ne_nil
  | cons b t =>
    rw [hc, List.cons_append] at h
    obtain ⟨rfl, rfl⟩ := List.cons.inj h
    exact lead?_of_utf8EncodeChar hc r

/-- A glyph and what is left are the text. -/
theorem bytes_lead (a : UInt8) (s : Bytes) :
    (lead a s).bytes ++ s.drop ((lead a s).width - 1) = a :: s := by
  rw [lead]
  split
  · rename_i c hlead
    obtain ⟨r, h⟩ := lead?_eq_some_iff.1 hlead
    have hdrop : (a :: s).drop c.utf8Size = r := by
      rw [h, ← String.length_utf8EncodeChar, List.drop_left]
    obtain ⟨k, hk⟩ := Nat.exists_eq_succ_of_ne_zero (Nat.ne_of_gt c.utf8Size_pos)
    rw [hk, List.drop_succ_cons] at hdrop
    rw [bytes, width, hk, Nat.succ_sub_one, hdrop, h]
  · rfl

theorem le_of_lead_eq_stray (h : lead a s = .stray b) : 0x80 ≤ b.toNat := by
  by_cases ha : a < 0x80
  · rw [Bytes.lead_of_lt ha] at h
    cases h
  · rw [lead] at h
    split at h
    · cases h
    · cases h
      exact Nat.not_lt.1 fun hlt => ha (UInt8.lt_iff_toNat_lt.2 hlt)

end Glyph

namespace Bytes

variable {s t : Bytes} {b : UInt8}

/-- The glyphs of the rest of a text make this rest. Bytes of a glyph that has been read are
skipped. -/
theorem ofGlyphs_glyphsFrom (skip : Nat) (s : Bytes) :
    ofGlyphs (glyphsFrom skip s) = s.drop skip := by
  induction s generalizing skip with
  | nil => rw [glyphsFrom.eq_1, List.drop_nil, ofGlyphs, List.flatMap_nil]
  | cons a s ih =>
    cases skip with
    | succ skip => exact ih skip
    | zero =>
      rw [glyphsFrom, ofGlyphs, List.flatMap_cons, ← ofGlyphs, ih, Glyph.bytes_lead]
      rfl

/-- **The glyphs of a text make the text.** -/
theorem ofGlyphs_glyphs (s : Bytes) : ofGlyphs (glyphs s) = s :=
  ofGlyphs_glyphsFrom 0 s

/-- A text is told by its glyphs. -/
theorem glyphs_injective (h : glyphs s = glyphs t) : s = t := by
  rw [← ofGlyphs_glyphs s, h, ofGlyphs_glyphs]

/-- When a whole text is skipped, what follows it is left. -/
theorem glyphsFrom_length_append (s t : Bytes) : glyphsFrom s.length (s ++ t) = glyphs t := by
  induction s with
  | nil => rfl
  | cons a s ih => exact ih

/-- A character in front is read as it. -/
theorem glyphs_utf8EncodeChar_append (c : Char) (s : Bytes) :
    glyphs (String.utf8EncodeChar c ++ s) = .char c :: glyphs s := by
  cases hc : String.utf8EncodeChar c with
  | nil => exact absurd hc String.utf8EncodeChar_ne_nil
  | cons a t =>
    have hlead : Glyph.lead a (t ++ s) = .char c := by
      rw [Glyph.lead, Glyph.lead?_of_utf8EncodeChar hc]
    have hwidth : (Glyph.char c).width - 1 = t.length := by
      rw [Glyph.width, ← String.length_utf8EncodeChar, hc, List.length_cons, Nat.add_sub_cancel]
    rw [List.cons_append, glyphs, glyphsFrom, hlead, hwidth, glyphsFrom_length_append]

/-- **Characters are read as they were written**, with anything behind them. -/
theorem chars_ofChars_append (cs : List Char) (s : Bytes) :
    chars (ofChars cs ++ s) = cs ++ chars s := by
  induction cs with
  | nil => rfl
  | cons c cs ih =>
    rw [ofChars, List.flatMap_cons, ← ofChars, List.append_assoc, chars,
      glyphs_utf8EncodeChar_append, List.map_cons, ← chars, ih]
    rfl

/-- The glyphs of written characters are these characters. -/
theorem glyphs_ofChars (cs : List Char) : glyphs (ofChars cs) = cs.map .char := by
  induction cs with
  | nil => rfl
  | cons c cs ih =>
    rw [ofChars, List.flatMap_cons, ← ofChars, glyphs_utf8EncodeChar_append, ih, List.map_cons]

/-- Characters make the text that they are written as. -/
theorem ofGlyphs_map_char (cs : List Char) : ofGlyphs (cs.map .char) = ofChars cs := by
  rw [← glyphs_ofChars, ofGlyphs_glyphs]

/-- **Different characters make different texts.** -/
theorem ofChars_injective : Function.Injective ofChars := by
  intro cs ds h
  have hmap : cs.map Glyph.char = ds.map Glyph.char := by
    rw [← glyphs_ofChars, h, glyphs_ofChars]
  exact List.map_injective_iff.2 (fun _ _ hchar => Glyph.char.inj hchar) hmap

/-- Only a byte that is no character of its own is a stray one. -/
theorem le_of_stray_mem_glyphsFrom {skip : Nat} (h : .stray b ∈ glyphsFrom skip s) :
    0x80 ≤ b.toNat := by
  induction s generalizing skip with
  | nil =>
    rw [glyphsFrom.eq_1] at h
    cases h
  | cons a s ih =>
    cases skip with
    | succ skip => exact ih h
    | zero =>
      rcases List.mem_cons.1 h with hlead | h
      · exact Glyph.le_of_lead_eq_stray hlead.symm
      · exact ih h

end Bytes

end Scriptlet
