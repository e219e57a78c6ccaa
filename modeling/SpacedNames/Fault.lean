import SpacedNames.Source.Words

/-!
# Failures

Names that are not declared and names that are declared again are no failures: a lookup then has
no answer, and a declaration takes the place of the earlier one.

* `SettingsFault`: why settings cannot be loaded. There is no text to read (`ReadFault`), the text is
  no document, or a value of the document is not of its setting's type (`TypeFault`).
* `Fault`: a pop below the bottom of a stack, a text that cannot be cut out, settings that cannot
  be loaded.
* `Fault.isMisuse`: does the fault show a mistake of the grammar, not of the text?
-/

namespace SpacedNames

open Text

/-! ## Why settings cannot be loaded -/

/-- A place in a document. Lines and columns count from one, columns in characters. -/
structure Position where
  line : Nat
  column : Nat
  deriving DecidableEq, Repr, Inhabited

/-- Why a file gives no text. -/
inductive ReadFault where
  | missing
  | notUnicode
  deriving DecidableEq, Repr

/-- What a setting expects. -/
inductive Expectation where
  | sequence
  | text
  | boolean
  deriving DecidableEq, Repr

/-- How a value of the wrong type is shown. -/
inductive ValueForm where
  | integer (value : Int)
  /-- A floating-point number, given by its digits. -/
  | floating (digits : String)
  | boolean (value : Bool)
  | text (value : String)
  | sequence
  | map
  deriving DecidableEq, Repr

/-- Why a value does not fit its setting. -/
inductive TypeFault where
  | mismatch (found : ValueForm) (expected : Expectation)
  /-- A strategy of this name does not exist. -/
  | unknownStrategy (name : String)
  /-- A strategy is given neither by a name nor by a table. -/
  | neitherTextNorTable
  /-- A strategy is given by a table with no entry. -/
  | noEntry
  /-- A strategy is given by a table with several entries. -/
  | severalEntries
  /-- The entry of a strategy's table has a value that is neither a table nor an array. -/
  | notTable (found : ValueForm)
  /-- The entry of a strategy's table has a value that is a table or an array, and not empty. -/
  | notEmpty
  deriving DecidableEq, Repr

/-- Why settings cannot be loaded. -/
inductive SettingsFault where
  | unreadable (path : String) (fault : ReadFault)
  /-- The text does not follow the document's grammar. -/
  | malformed
  | illTyped (position : Position) (fault : TypeFault)
  deriving DecidableEq, Repr

namespace ReadFault

/-- How the fault is reported. -/
def message : ReadFault → String
  | missing => "No such file or directory (os error 2)"
  | notUnicode => "stream did not contain valid UTF-8"

end ReadFault

namespace Expectation

/-- What is expected, in words. -/
def describe : Expectation → String
  | sequence => "a sequence"
  | text => "a string"
  | boolean => "a boolean"

end Expectation

namespace ValueForm

/-- The form of a value, in words. -/
def describe : ValueForm → String
  | integer value => s!"integer `{value}`"
  | floating digits => s!"floating point `{digits}`"
  | boolean value => s!"boolean `{value}`"
  | text value => s!"string {quoted value}"
  | sequence => "sequence"
  | map => "map"

end ValueForm

namespace TypeFault

/-- How the fault is reported. -/
def message : TypeFault → String
  | mismatch found expected => s!"invalid type: {found.describe}, expected {expected.describe}"
  | unknownStrategy name =>
    s!"unknown variant `{name}`, expected `lookahead` or `checkpoint`"
  | neitherTextNorTable => "wanted string or table"
  | noEntry => "wanted exactly 1 element, found 0 elements"
  | severalEntries => "wanted exactly 1 element, more than 1 element"
  | notTable found => s!"expected table, found {found.describe}"
  | notEmpty => "expected empty table"

end TypeFault

namespace SettingsFault

/-- The first line of the report. -/
def message : SettingsFault → String
  | unreadable path fault => s!"Error reading resolver configuration {path}: {fault.message}"
  | malformed => "Invalid resolver configuration"
  | illTyped position _ =>
    "Invalid resolver configuration: TOML parse error at " ++
      s!"line {position.line}, column {position.column}"

/-- The stable identifier under which the cause is documented. -/
def code : SettingsFault → String
  | unreadable _ _ => "wordscope_resolve::config_read"
  | malformed | illTyped _ _ => "wordscope_resolve::config_parse"

/-- Advice to the caller. -/
def help : SettingsFault → String
  | unreadable _ _ => "check that the file exists and is readable"
  | malformed | illTyped _ _ => "see ResolverConfig for the accepted keys"

end SettingsFault

/-! ## Why operations fail -/

/-- What is opened or pushed, and has to be closed or popped. -/
inductive Stacked where
  | scope
  | label
  deriving DecidableEq, Repr

/-- Why an operation fails. -/
inductive Fault where
  /-- A pop without a matching push; `bottom` is the label that would have been removed. -/
  | belowBottom (what : Stacked) (bottom : String)
  | cut (cause : CutFault)
  | settings (cause : SettingsFault)
  deriving DecidableEq, Repr

namespace Stacked

/-- What the stack holds. -/
def describe : Stacked → String
  | scope => "scope"
  | label => "name"

end Stacked

namespace Fault

/-- One line that states the cause. -/
def message : Fault → String
  | belowBottom what bottom =>
    s!"Stack discipline violation: pop below the bottom of the {what.describe} stack (`{bottom}`)"
  | cut cause => cause.message
  | settings cause => cause.message

/-- The stable identifier under which the cause is documented. -/
def code : Fault → String
  | belowBottom _ _ => "wordscope_resolve::stack_discipline"
  | cut cause => cause.code
  | settings cause => cause.code

/-- Advice to the caller, where there is any. -/
def help : Fault → Option String
  | belowBottom _ _ => some "every pop must be paired with an earlier push of the same kind"
  | cut cause => cause.help
  | settings cause => some cause.help

/-- Faults that show a mistake in the grammar, not in the text that is parsed. -/
def isMisuse : Fault → Bool
  | belowBottom _ _ => true
  | cut _ | settings _ => false

end Fault

end SpacedNames
