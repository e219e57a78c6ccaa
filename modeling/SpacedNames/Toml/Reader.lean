import SpacedNames.Text.Characters

/-!
# Readers

* `Reader`: takes a value from the front of a character list, or fails and takes nothing.
* `satisfy`, `exactly`, `many`, `several`: the parts from which readers are made.
* `blanks`, `lineEnd`, `blankLines`: what may stand between two values of a line, after the last one, and
  between the values of an array.
* `basicLine`, `literalLine`: a string on one line. `anyText`: a string of either kind, on one line or
  several.

Strings between quotation marks have escapes, strings between apostrophes have none. Between
three marks on each side either kind may have newlines, and up to two of its own marks in a row.
Newlines are single characters here; `singleNewlines` sees to it.
-/

namespace SpacedNames.Toml

open Text

/-- Takes a value from the front of the text that is left. -/
abbrev Reader (α : Type) := StateT (List Char) Option α

namespace Reader

/-- One character of a kind. -/
def satisfy (p : Char → Bool) : Reader Char
  | [] => none
  | c :: cs => if p c then some (c, cs) else none

/-- This character. -/
def char (c : Char) : Reader Unit := do
  discard (satisfy (· == c))

/-- These characters, one after the other. -/
def exactly : List Char → Reader Unit
  | [] => pure ()
  | c :: cs => do
    char c
    exactly cs

/-- The next character, which is not taken; none at the end. -/
def next : Reader (Option Char) := fun cs => some (cs.head?, cs)

/-- The number of characters that are left. -/
def mark : Reader Nat := fun cs => some (cs.length, cs)

/-- Fails if the next character is this one. -/
def notNext (c : Char) : Reader Unit := do
  if (← next) = some c then failure

/-- Nothing is left. -/
def atEnd : Reader Unit
  | [] => some ((), [])
  | _ :: _ => none

/-- The reader's value, or none where it fails. -/
def maybe (r : Reader α) : Reader (Option α) :=
  (some <$> r) <|> pure none

/-- The reader's values, as often as it succeeds, but not more often than `n` times. -/
def upTo (r : Reader α) : Nat → Reader (List α)
  | 0 => pure []
  | n + 1 =>
    (do
      let x ← r
      let xs ← upTo r n
      pure (x :: xs)) <|> pure []

/-- The reader's values, as often as it succeeds. It has to take something each time. -/
def many (r : Reader α) : Reader (List α) := do
  upTo r (← mark)

/-- One value or more. -/
def several (r : Reader α) : Reader (List α) := do
  let x ← r
  let xs ← many r
  return x :: xs

end Reader

open Reader

/-! ## Blanks and comments -/

/-- A character beyond ASCII. -/
def isWide (c : Char) : Bool :=
  0x80 ≤ c.toNat

/-- A space or a tab. -/
def isGap (c : Char) : Bool :=
  c == ' ' || c == '\t'

/-- A character that may stand in a comment: no control character but the tab. -/
def isPlain (c : Char) : Bool :=
  c == '\t' || (0x20 ≤ c.toNat && c.toNat ≤ 0x7e) || isWide c

/-- Spaces and tabs, if there are any. -/
def blanks : Reader Unit := fun cs => some ((), cs.dropWhile isGap)

/-- From a number sign to the end of the line. -/
def comment : Reader Unit := do
  char '#'
  fun cs => some ((), cs.dropWhile isPlain)

/-- A newline or the end of the text. -/
def newlineOrEnd : Reader Unit :=
  char '\n' <|> atEnd

/-- The end of a line after its last value. -/
def lineEnd : Reader Unit := do
  blanks
  discard (maybe comment)
  newlineOrEnd

/-- Blanks, newlines and comments, if there are any. A comment ends with its line. -/
def blankLines : Reader Unit := do
  discard (many (discard (satisfy isGap) <|> char '\n' <|> comment *> char '\n'))

/-! ## Quoted strings -/

/-- A hexadecimal digit. -/
def isHexDigit (c : Char) : Bool :=
  c.isDigit || ('a' ≤ c && c ≤ 'f') || ('A' ≤ c && c ≤ 'F')

/-- So many values of a reader. -/
def times (r : Reader α) : Nat → Reader (List α)
  | 0 => pure []
  | n + 1 => do
    let x ← r
    let xs ← times r n
    return x :: xs

/-- The character with this number. Surrogates are no characters. -/
def charOf? (n : Nat) : Option Char :=
  if h : n.isValidChar then some (Char.ofNatAux n h) else none

/-- A character given by so many hexadecimal digits. -/
def numberedChar (digits : Nat) : Reader Char := do
  let ds ← times (satisfy isHexDigit) digits
  match charOf? (digitsValue 16 ds) with
  | some c => return c
  | none => failure

/-- A backslash and what it stands for. -/
def escapedChar : Reader Char := do
  char '\\'
  let c ← satisfy fun _ => true
  match c with
  | 'b' => return '\x08'
  | 't' => return '\t'
  | 'n' => return '\n'
  | 'f' => return '\x0c'
  | 'r' => return '\r'
  | '"' => return '"'
  | '\\' => return '\\'
  | 'u' => numberedChar 4
  | 'U' => numberedChar 8
  | _ => failure

/-! ### On one line -/

/-- A string between quotation marks. -/
def basicLine : Reader (List Char) := do
  char '"'
  let cs ← many (satisfy (fun c => isPlain c && c != '"' && c != '\\') <|> escapedChar)
  char '"'
  return cs

/-- A string between apostrophes. -/
def literalLine : Reader (List Char) := do
  char '\''
  let cs ← many (satisfy fun c => isPlain c && c != '\'')
  char '\''
  return cs

/-! ### On several lines -/

/-- One or two marks that do not belong to the end of the string. -/
def innerMarks (mark : Char) : Reader (List Char) :=
  (do
    char mark
    char mark
    notNext mark
    return [mark, mark]) <|>
  (do
    char mark
    notNext mark
    return [mark])

/-- The three marks at the end of a string, with the marks before them that still belong to
it. -/
def lastMarks (mark : Char) : Reader (List Char) :=
  (exactly [mark, mark, mark, mark, mark] *> pure [mark, mark]) <|>
  (exactly [mark, mark, mark, mark] *> pure [mark]) <|>
  (exactly [mark, mark, mark] *> pure [])

/-- A backslash at the end of a line: it, the newline and the blanks after it are left out. -/
def continuation : Reader (List Char) := do
  char '\\'
  blanks
  char '\n'
  discard (many (discard (satisfy isGap) <|> char '\n'))
  return []

/-- A string between three marks, made of such pieces. A newline right at the start is left
out. -/
def lines (mark : Char) (piece : Reader (List Char)) : Reader (List Char) := do
  exactly [mark, mark, mark]
  discard (maybe (char '\n'))
  let pieces ← many (piece <|> innerMarks mark)
  let last ← lastMarks mark
  return pieces.flatten ++ last

/-- A string between three quotation marks. -/
def basicLines : Reader (List Char) :=
  lines '"' <|
    (do return [← satisfy fun c => c == '\n' || (isPlain c && c != '"' && c != '\\')]) <|>
    continuation <|>
    (do return [← escapedChar])

/-- A string between three apostrophes. -/
def literalLines : Reader (List Char) :=
  lines '\'' (do return [← satisfy fun c => c == '\n' || (isPlain c && c != '\'')])

/-- A string of any kind. -/
def anyText : Reader String :=
  String.ofList <$> (basicLines <|> basicLine <|> literalLines <|> literalLine)

end SpacedNames.Toml
