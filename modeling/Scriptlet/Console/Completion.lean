import Scriptlet.Run.Session
import Scriptlet.Text.Glyph

/-!
# Completing names

The **words** of a line are what characters that no name may hold leave of it. The last of them is
completed when the line ends in it. Its completions are the names that begin with it, among the
words of the language, the variables and the functions of the session, each listed once.
-/

namespace Scriptlet

namespace Completing

/-- The words of the language that can be completed. -/
def languageWords : List Bytes :=
  ["func", "while", "if", "return", "true", "false", "and", "or", "length", "starts_with"].map
    Bytes.ofString

/-- The names that can be completed in a session. -/
def candidates (s : Session) : List Bytes :=
  languageWords ++ s.bindings.names ++ s.functions

/-- A character that a name may hold. -/
def isNameChar (c : Char) : Bool :=
  (Glyph.char c).isNameChar

/-- The word that ends here, if any characters have been read of one. -/
def closed (word : List Char) : List (List Char) :=
  if word.isEmpty then [] else [word]

/-- The words of the rest of a line, when `word` has been read of one that may go on. -/
def wordsFrom : (word line : List Char) → List (List Char)
  | word, [] => closed word
  | word, c :: line =>
    if isNameChar c then wordsFrom (word ++ [c]) line else closed word ++ wordsFrom [] line

/-- The words of a line, in order. -/
def words (line : List Char) : List (List Char) :=
  wordsFrom [] line

/-- The names that begin with a word, each once. -/
def matching (names : List Bytes) (word : Bytes) : List Bytes :=
  (names.filter fun name => Bytes.beginsWith name word).eraseDups

end Completing

/-- What can be done for the word at the end of a line. -/
inductive Completions where
  /-- There is no word, or no name begins with it. -/
  | none
  /-- One name begins with the word, which comes after the rest of the line. -/
  | one (before : List Char) (name : Bytes)
  /-- Several names begin with the word. -/
  | many (names : List Bytes)

/-- **The completions of a line in a session.** -/
def Session.complete (s : Session) (line : List Char) : Completions :=
  match (Completing.words line).getLast? with
  | none => .none
  | some word =>
    if word.isSuffixOf line then
      match Completing.matching (Completing.candidates s) (Bytes.ofChars word) with
      | [] => .none
      | [name] => .one (line.take (line.length - word.length)) name
      | names => .many names
    else .none

end Scriptlet
