import SpacedNames.Toml.Reader
import SpacedNames.Toml.Table

/-!
# Documents

* `integer`: a signed decimal integer, or an unsigned one in base sixteen, eight or two. It has to
  fit 64 bits with a sign.
* `floating`: a decimal with a fraction or an exponent, an infinity, or "not a number". Digits may be
  set apart by single underscores.
* `dateTime`: a date, a time, or both with or without an offset. The date has to exist; what date
  it is does not matter here.
* `path`: a key, split at its dots.
* `value`: a string, a number, a truth value, a date, an array or a table between braces.
* `Statement`: a header, a repeated header, or a key with its value. `statements`: a text as statements.
  `Entries.ofStatements`: the table that they make.
* `read`: a text as a table.
-/

namespace SpacedNames.Toml

open Reader Decimal Text

/-! ## Numbers -/

/-- A sign; is it a minus? -/
def sign : Reader Bool :=
  (char '-' *> pure true) <|> (char '+' *> pure false) <|> pure false

/-- Digits, with single underscores between them. -/
def digitRun (isDigit : Char → Bool) : Reader (List Char) := do
  let first ← satisfy isDigit
  let rest ← many (satisfy isDigit <|> char '_' *> satisfy isDigit)
  return first :: rest

/-- Decimal digits without a needless zero in front. -/
def wholePart : Reader (List Char) :=
  (do
    notNext '0'
    digitRun Char.isDigit) <|>
  (char '0' *> pure ['0'])

/-- Does the integer fit 64 bits with a sign? -/
def fits (n : Int) : Bool :=
  -(Int.pow 2 63) ≤ n && n < Int.pow 2 63

/-- An integer in another base, after its mark. -/
def basedInteger (mark : Char) (base : Nat) (isDigit : Char → Bool) : Reader Int := do
  exactly ['0', mark]
  return digitsValue base (← digitRun isDigit)

/-- A decimal integer. -/
def decimalInteger : Reader Int := do
  let negative ← sign
  let n : Int := digitsValue 10 (← wholePart)
  return if negative then -n else n

/-- An integer. -/
def integer : Reader Int := do
  let n ← basedInteger 'x' 16 isHexDigit
    <|> basedInteger 'o' 8 (fun c => '0' ≤ c && c ≤ '7')
    <|> basedInteger 'b' 2 (fun c => c == '0' || c == '1')
    <|> decimalInteger
  if fits n then return n else failure

/-- The exponent of a decimal. -/
def exponent : Reader Int := do
  char 'e' <|> char 'E'
  let negative ← sign
  let n : Int := digitsValue 10 (← digitRun Char.isDigit)
  return if negative then -n else n

/-- The digits after the point. -/
def fraction : Reader (List Char) :=
  char '.' *> digitRun Char.isDigit

/-- A decimal with a fraction or an exponent. One that is too great has no value, but its
negative has: the negative infinity. -/
def decimal : Reader Binary := do
  let negative ← sign
  let whole ← wholePart
  let (places, e) ← (do return (← fraction, (← maybe exponent).getD 0)) <|>
    (do return ([], ← exponent))
  let x := Binary.ofDecimal negative (digitsValue 10 (whole ++ places)) (e - places.length)
  if x = .infinite false then failure else return x

/-- An infinity, or "not a number", with a sign or without. -/
def special : Reader Binary := do
  let negative ← sign
  (exactly ['i', 'n', 'f'] *> pure (.infinite negative)) <|>
    (exactly ['n', 'a', 'n'] *> pure .nan)

/-- A floating-point number. -/
def floating : Reader Binary :=
  decimal <|> special

/-! ## Dates and times -/

/-- A number of so many decimal digits. -/
def fixedNumber (digits : Nat) : Reader Nat := do
  return digitsValue 10 (← times (satisfy Char.isDigit) digits)

/-- A number of two digits between two bounds. -/
def pair (low high : Nat) : Reader Nat := do
  let n ← fixedNumber 2
  if low ≤ n ∧ n ≤ high then return n else failure

/-- Every fourth year is a leap year, of the full centuries every fourth only. -/
def isLeapYear (year : Nat) : Bool :=
  year % 4 == 0 && (year % 100 != 0 || year % 400 == 0)

/-- The days of a month. -/
def daysIn (year month : Nat) : Nat :=
  if month = 2 then if isLeapYear year then 29 else 28
  else if month = 4 ∨ month = 6 ∨ month = 9 ∨ month = 11 then 30
  else 31

/-- A date that exists. -/
def date : Reader Unit := do
  let year ← fixedNumber 4
  char '-'
  let month ← pair 1 12
  char '-'
  discard (pair 1 (daysIn year month))

/-- A time of the day, with seconds. A leap second is allowed. -/
def time : Reader Unit := do
  discard (pair 0 23)
  char ':'
  discard (pair 0 59)
  char ':'
  discard (pair 0 60)
  discard (maybe (char '.' *> several (satisfy Char.isDigit)))

/-- The offset from universal time. -/
def offset : Reader Unit :=
  char 'Z' <|> char 'z' <|> do
    char '+' <|> char '-'
    discard (pair 0 23)
    char ':'
    discard (pair 0 59)

/-- What may follow a date. -/
def timeOfDate : Reader Unit := do
  char 'T' <|> char 't' <|> char ' '
  time
  discard (maybe offset)

/-- A date, a time, or both. -/
def dateTime : Reader Unit :=
  (date *> discard (maybe timeOfDate)) <|> time

/-! ## Values -/

/-- How deep arrays and tables may be nested. -/
def deepest : Nat := 79

/-- A character of a key without quotes. -/
def isKeyChar (c : Char) : Bool :=
  c.isAlphanum || c == '_' || c == '-'

/-- One part of a key. -/
def keyPart : Reader Key := do
  blanks
  let mark ← mark
  let name ← basicLine <|> literalLine <|> several (satisfy isKeyChar)
  blanks
  return ⟨String.ofList name, mark⟩

/-- A key, split at its dots. It has no more parts than tables may be nested. -/
def path : Reader (List Key) := do
  let first ← keyPart
  let rest ← many (char '.' *> keyPart)
  if rest.length < deepest then return first :: rest else failure

/-- A truth value. -/
def boolean : Reader Bool :=
  (exactly ['t', 'r', 'u', 'e'] *> pure true) <|>
  (exactly ['f', 'a', 'l', 's', 'e'] *> pure false)

/-- A value without parts. -/
def scalar : Reader Scalar :=
  (.text <$> anyText) <|> (dateTime *> pure .dateTime) <|> (.floating <$> floating) <|>
  (.integer <$> integer) <|> (.boolean <$> boolean)

/-! ### Values with parts -/

/-- The values of an array up to its closing bracket. A comma may stand after the last one. -/
def items (item : Reader Node) : Nat → Reader (List Node)
  | 0 => failure
  | fuel + 1 => do
    blankLines
    (char ']' *> pure []) <|> do
      let x ← item
      blankLines
      (char ']' *> pure [x]) <|> do
        char ','
        return x :: (← items item fuel)

/-- An array, on one line or several. -/
def array (item : Reader Node) : Reader Node := do
  let mark ← mark
  char '['
  return .array mark (← items item mark)

/-- A key and its value. -/
def entry (item : Reader Node) : Reader (List Key × Node) := do
  let path ← path
  char '='
  blanks
  return (path, ← item)

/-- The entries of a table up to its closing brace. No comma may stand after the last one. -/
def members (item : Reader Node) : Nat → Reader (List (List Key × Node))
  | 0 => failure
  | fuel + 1 => do
    let x ← entry item
    blanks
    (char '\x7d' *> pure [x]) <|> do
      char ','
      return x :: (← members item fuel)

/-- A table between braces, on one line. -/
def braced (item : Reader Node) : Reader Node := do
  let mark ← mark
  char '\x7b'
  blanks
  let xs ← (char '\x7d' *> pure []) <|> members item mark
  match xs.foldlM (fun es x => addEntry x.1 x.2 es) [] with
  | some es => return .table (some mark) .braces es
  | none => failure

/-- A value in which arrays and tables are nested no deeper than this. -/
def valueWithin : Nat → Reader Node
  | 0 => do return .scalar (← mark) (← scalar)
  | depth + 1 =>
    array (valueWithin depth) <|> braced (valueWithin depth) <|>
    do return .scalar (← mark) (← scalar)

/-- A value. -/
def value : Reader Node :=
  valueWithin deepest

/-! ## Statements -/

/-- A line of a document that says something. -/
inductive Statement where
  | header (mark : Nat) (path : List Key)
  | repeated (mark : Nat) (path : List Key)
  | entry (path : List Key) (value : Node)

/-! ### Reading -/

/-- A header between brackets. -/
def header : Reader Statement := do
  let mark ← mark
  char '['
  let path ← path
  char ']'
  return .header mark path

/-- A header between doubled brackets. -/
def repeatedHeader : Reader Statement := do
  let mark ← mark
  exactly ['[', '[']
  let path ← path
  exactly [']', ']']
  return .repeated mark path

/-- A key and its value. -/
def keyValue : Reader Statement := do
  let (path, node) ← entry value
  return .entry path node

/-- The statements up to the end of the text. -/
def statements : Nat → Reader (List Statement)
  | 0 => failure
  | fuel + 1 => do
    blanks
    (atEnd *> pure []) <|>
      (char '\n' *> statements fuel) <|>
      (comment *> newlineOrEnd *> statements fuel) <|> do
        let x ← repeatedHeader <|> header <|> keyValue
        lineEnd
        return x :: (← statements fuel)

/-! ### Building -/

/-- Takes up a statement. Keys belong to the table of the last header. -/
def Statement.apply (current : List Key) (es : Entries) : Statement → Option (List Key × Entries)
  | header mark path => (openTable mark path es).map (path, ·)
  | repeated mark path => (openElement mark path es).map (path, ·)
  | entry path value =>
    (growAt false (fun _ => addEntry path value) current none es).map (current, ·)

/-- Takes up the statements in order. -/
def Statement.applyAll (current : List Key) (es : Entries) : List Statement → Option Entries
  | [] => some es
  | s :: rest =>
    match s.apply current es with
    | some (current, es) => applyAll current es rest
    | none => none

/-- The table that the statements make. -/
def Entries.ofStatements (xs : List Statement) : Option Entries :=
  Statement.applyAll [] [] xs

/-! ### Texts -/

/-- The text with each carriage return before a newline left out. -/
def singleNewlines : List Char → List Char
  | '\r' :: '\n' :: cs => '\n' :: singleNewlines cs
  | c :: cs => c :: singleNewlines cs
  | [] => []

/-- Is this the mark that may stand at the very start of a text? -/
def isByteOrderMark (c : Char) : Bool :=
  c == '\ufeff'

/-- The table of a text, whose newlines are single characters. -/
def read (cs : List Char) : Option Entries := do
  let body :=
    match cs with
    | c :: rest => if isByteOrderMark c then rest else cs
    | [] => []
  let (xs, _) ← statements (body.length + 1) body
  Entries.ofStatements xs

end SpacedNames.Toml
