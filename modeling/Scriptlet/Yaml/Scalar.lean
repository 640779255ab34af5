import Scriptlet.Text.Base64
import Scriptlet.Text.Glyph
import Scriptlet.Yaml.Meaning

/-!
# Texts in YAML

A text is written in the plainest of four **styles** that its characters allow: bare, in single
quotes, in double quotes with escapes, or, when it has several lines, as a block below its
key. Bytes that are no text are written in base 64 with a tag.

A bare text must not begin or end with a blank, break a line, hold what would be taken for
structure, or mean something else. Single quotes allow all but tabs, unprintable characters,
and blanks next to a line break. A block allows tabs as well, but no blank at the very end.
-/

namespace Scriptlet

namespace Yaml

/-! ### Characters -/

/-- A character that ends a line. -/
def isBreak (c : Char) : Bool :=
  c == '\n' || c == '\r' || c == '\u0085' || c == '\u2028' || c == '\u2029'

/-- A character that can stand for itself between double quotes. -/
def isPrintableHere (c : Char) : Bool :=
  let v := c.toNat
  v == 0x0a || (0x20 ≤ v && v ≤ 0x7e) || (0xa0 ≤ v && v ≤ 0xd7ff) ||
    (0xe000 ≤ v && v ≤ 0xfffd && v != 0xfeff)

/-- A character, not a tab, that has to be escaped. -/
def isSpecial (c : Char) : Bool :=
  c != '\t' && !isPrintableHere c

/-- A character that no bare text begins with. -/
def isIndicator (c : Char) : Bool :=
  "#,[]\x7b\x7d&*!|>'\"%@`".toList.contains c

/-! ### What a text allows -/

/-- Whether some character and the next satisfy `p`. -/
def anyPair (p : Char → Char → Bool) (cs : List Char) : Bool :=
  (cs.zip cs.tail).any fun (a, b) => p a b

/-- Whether a blank follows a line break. -/
def hasBreakBlank (cs : List Char) : Bool :=
  anyPair (fun a b => isBreak a && b == ' ') cs

/-- Whether a line break follows a blank. -/
def hasBlankBreak (cs : List Char) : Bool :=
  anyPair (fun a b => a == ' ' && isBreak b) cs

/-- Whether a text begins like a mark between documents. -/
def beginsLikeMark (cs : List Char) : Bool :=
  cs.take 3 == ['-', '-', '-'] || cs.take 3 == ['.', '.', '.']

/-- Whether the first character would be taken for structure. -/
def beginsLikeStructure (cs : List Char) : Bool :=
  match cs with
  | [] => false
  | [c] => isIndicator c || c == '?' || c == ':' || c == '-'
  | c :: d :: _ =>
    isIndicator c || ((c == '?' || c == ':' || c == '-') && (d == ' ' || d == '\t'))

/-- Whether a colon at the end of a word, or a hash after a blank, would be taken for
structure. -/
def holdsStructure (cs : List Char) : Bool :=
  cs.getLast? == some ':' ||
    anyPair (fun a b => a == ':' && (b == ' ' || b == '\t')) cs ||
    anyPair (fun a b => (a == ' ' || a == '\t' || isBreak a) && b == '#') cs

/-- Whether a text may stand in single quotes. -/
def allowsSingle (cs : List Char) : Bool :=
  !hasBreakBlank cs && !hasBlankBreak cs && !cs.contains '\t' && !cs.any isSpecial

/-- Whether a text may stand bare, as far as its characters go. -/
def allowsBare (cs : List Char) : Bool :=
  allowsSingle cs && !cs.any isBreak && cs.head? != some ' ' && cs.getLast? != some ' ' &&
    !beginsLikeMark cs && !beginsLikeStructure cs && !holdsStructure cs

/-- Whether a text may stand in a block. -/
def allowsBlock (cs : List Char) : Bool :=
  cs.getLast? != some ' ' && !hasBlankBreak cs && !cs.any isSpecial

/-! ### Styles -/

/-- The letter that stands for a character after a backslash. -/
def escapeLetter? (c : Char) : Option Char :=
  match c.toNat with
  | 0x00 => some '0'
  | 0x07 => some 'a'
  | 0x08 => some 'b'
  | 0x09 => some 't'
  | 0x0a => some 'n'
  | 0x0b => some 'v'
  | 0x0c => some 'f'
  | 0x0d => some 'r'
  | 0x1b => some 'e'
  | 0x22 => some '"'
  | 0x5c => some '\\'
  | 0x85 => some 'N'
  | 0xa0 => some '_'
  | 0x2028 => some 'L'
  | 0x2029 => some 'P'
  | _ => none

/-- A code in upper-case hexadecimal digits. -/
def upperHex (width v : Nat) : Bytes :=
  (Bytes.hex width v).map fun b => if 0x61 ≤ b then b - 0x20 else b

/-- The byte-order mark. -/
def byteOrderMark : Char := '\ufeff'

/-- A character between double quotes; `always` asks for its escape even where it could stand
for itself. -/
def doubleQuotedChar (always : Bool) (c : Char) : Bytes :=
  if !always && isPrintableHere c && !isBreak c && c != '"' && c != '\\' then
    String.utf8EncodeChar c
  else
    Bytes.backslash ::
      (match escapeLetter? c with
      | some letter => String.utf8EncodeChar letter
      | none =>
        let v := c.toNat
        if v ≤ 0xff then 0x78 :: upperHex 2 v
        else if v ≤ 0xffff then 0x75 :: upperHex 4 v
        else 0x55 :: upperHex 8 v)

/-- A text in double quotes. One that begins with a byte-order mark has all its characters
escaped. -/
def doubleQuoted (cs : List Char) : Bytes :=
  Bytes.doubleQuote :: cs.flatMap (doubleQuotedChar (cs.head? == some byteOrderMark)) ++
    [Bytes.doubleQuote]

/-- The characters between single quotes. After a line break the text goes on at the
indentation. -/
def singleQuotedChars (indent : Nat) : (broken : Bool) → List Char → Bytes
  | _, [] => []
  | broken, c :: cs =>
    if isBreak c then String.utf8EncodeChar c ++ singleQuotedChars indent true cs
    else
      (if broken && c != ' ' then Bytes.spaces indent else []) ++
        (if c = '\'' then [0x27, 0x27] else String.utf8EncodeChar c) ++
        singleQuotedChars indent (broken && c == ' ') cs

/-- A text in single quotes. -/
def singleQuoted (indent : Nat) (cs : List Char) : Bytes :=
  0x27 :: singleQuotedChars indent false cs ++ [0x27]

/-- The lines of a block: every line that is not empty at the indentation. `fresh` tells that the
current line is empty yet, `opened` that it has been begun. -/
def blockLines (indent : Nat) : (fresh opened : Bool) → List Char → Bytes
  | _, _, [] => []
  | fresh, opened, c :: cs =>
    if isBreak c then String.utf8EncodeChar c ++ blockLines indent true true cs
    else
      (if fresh then (if opened then [] else [Bytes.newline]) ++ Bytes.spaces indent else []) ++
        String.utf8EncodeChar c ++ blockLines indent false true cs

/-- How a block ends: without a final line break, with more than one, or with exactly
one. -/
def chomping (cs : List Char) : Bytes :=
  match cs.reverse with
  | [] => [Bytes.hyphen]
  | [c] => if isBreak c then [0x2b] else [Bytes.hyphen]
  | c :: d :: _ => if isBreak c then (if isBreak d then [0x2b] else []) else [Bytes.hyphen]

/-- The width of one level of indentation. -/
def indentWidth : Nat := 2

/-- A text as a block. The width of the indentation is told when the text itself begins with a
blank or a line break. -/
def block (indent : Nat) (cs : List Char) : Bytes :=
  let hint :=
    match cs with
    | [] => []
    | c :: _ => if c == ' ' || isBreak c then Bytes.ofNat indentWidth else []
  0x7c :: hint ++ chomping cs ++ blockLines indent true false cs

/-- A text whose characters are known, `bare` telling whether it would mean itself. -/
def textOf (indent : Nat) (bare : Bool) (cs : List Char) : Bytes :=
  if cs.contains '\n' then
    if allowsBlock cs then block indent cs else doubleQuoted cs
  else if bare then
    if allowsBare cs then Bytes.ofChars cs
    else if allowsSingle cs then singleQuoted indent cs
    else doubleQuoted cs
  else doubleQuoted cs

/-- Lines of at most `n` bytes, each with a line feed; `fuel` bounds their number. -/
def chunked (n : Nat) : (fuel : Nat) → Bytes → Bytes
  | 0, _ => []
  | _, [] => []
  | fuel + 1, s => s.take n ++ Bytes.newline :: chunked n fuel (s.drop n)

/-- Bytes in base 64, on several lines when there are many. -/
def base64Lines (s : Bytes) : Bytes :=
  let code := Base64.encode s
  if code.length < 70 then code else chunked 70 code.length code

/-- **A text as a value**, with the indentation of what may follow on further lines. -/
def text (indent : Nat) (s : Bytes) : Bytes :=
  if Bytes.isText s then textOf indent (isPlainWord s) ((Bytes.glyphs s).map Glyph.toChar)
  else
    Bytes.ofString "!!binary " ++
      textOf indent true ((Bytes.glyphs (base64Lines s)).map Glyph.toChar)

end Yaml

end Scriptlet
