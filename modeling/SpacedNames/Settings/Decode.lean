import SpacedNames.Fault
import SpacedNames.Toml.Document

/-!
# Settings

* `Strategy`: how the end of a name is found. Both ways come to one decision.
* `Settings`: what a resolver is told at its start, with the defaults.
* `Settings.ofEntries`: the settings that the entries of a document give. Keys that are no
  settings are passed over; settings without a key keep their defaults; the first value of a
  wrong type is reported.
* `Settings.ofText`, `ofFile`: the settings that a text, or the content of a file, gives.
-/

namespace SpacedNames

open Toml

/-- How the end of a name is found. -/
inductive Strategy where
  /-- Scan the whole run of candidates, then take the longest name. -/
  | lookahead
  /-- Offer one token after the other and fall back to the last name. -/
  | checkpoint
  deriving DecidableEq, Repr, Inhabited

/-- The names of the functions that the decision expression language provides. Several have more
than one word. -/
def languageFunctions : List String :=
  ["date", "time", "date and time", "duration", "years and months duration", "number", "string",
   "substring", "string length", "upper case", "lower case", "substring before",
   "substring after", "replace", "contains", "starts with", "ends with", "matches",
   "list contains", "count", "min", "max", "sum", "mean", "and", "or", "sublist", "append",
   "concatenate", "insert before", "remove", "reverse", "index of", "union", "distinct values",
   "flatten", "decimal", "floor", "ceiling", "not"]

/-- What a resolver is told at its start. -/
structure Settings where
  /-- The names in the root scope. -/
  builtins : List String := languageFunctions
  /-- The label of the root scope. -/
  rootLabel : String := "<builtin>"
  /-- The label of the scope that is opened with the resolver. -/
  globalLabel : String := "<global>"
  /-- The label at the bottom of the label stack. -/
  seedLabel : String := "<local>"
  strategy : Strategy := .lookahead
  /-- Are decisions logged while no other sink is installed? -/
  trace : Bool := false
  deriving DecidableEq, Repr, Inhabited

namespace Settings

/-- The same settings with an empty root scope. -/
def withoutBuiltins (s : Settings) : Settings :=
  { s with builtins := [] }

/-- The same settings with another strategy. -/
def withStrategy (s : Settings) (strategy : Strategy) : Settings :=
  { s with strategy }

end Settings

/-! ## Values of documents -/

namespace Toml.Node

/-- How the value is shown where another type is expected. -/
def form : Node → ValueForm
  | scalar _ (.text value) => .text value
  | scalar _ (.integer value) => .integer value
  | scalar _ (.floating value) => .floating value.text
  | scalar _ (.boolean value) => .boolean value
  | scalar _ .dateTime => .map
  | array _ _ | tables _ _ => .sequence
  | table _ _ _ => .map

end Toml.Node

namespace Settings

/-- A value of the wrong type: the mark where it stands, and what is wrong. -/
abbrev EntryFault := Nat × TypeFault

/-- The fault of a value, at the value or, where it has no place, at its key. -/
def faultAt (key : Nat) (node : Node) (fault : TypeFault) : EntryFault :=
  (node.mark?.getD key, fault)

/-- The value is not what the setting expects. -/
def mismatch (key : Nat) (node : Node) (expected : Expectation) : EntryFault :=
  faultAt key node (.mismatch node.form expected)

/-! ## Values of settings -/

/-- A string. -/
def readText (key : Nat) : Node → Except EntryFault String
  | .scalar _ (.text value) => .ok value
  | node => .error (mismatch key node .text)

/-- A truth value. -/
def readBool (key : Nat) : Node → Except EntryFault Bool
  | .scalar _ (.boolean value) => .ok value
  | node => .error (mismatch key node .boolean)

/-- Strings, each of which has to be one. -/
def readTexts (key : Nat) : Node → Except EntryFault (List String)
  | .array _ items => items.mapM (readText key)
  | .tables _ elements => elements.mapM (readText key)
  | node => .error (mismatch key node .sequence)

/-- The strategy of a name. -/
def strategyOf? (name : String) : Option Strategy :=
  if name = "lookahead" then some .lookahead
  else if name = "checkpoint" then some .checkpoint
  else none

/-- A strategy given by the one entry of a table: its key is the name, its value an empty table
or an empty array. -/
def readTagged (key : Key) (value : Node) : Except EntryFault Strategy :=
  match strategyOf? key.name, value with
  | none, _ => .error (key.mark, .unknownStrategy key.name)
  | some strategy, .table _ _ [] | some strategy, .array _ [] | some strategy, .tables _ [] =>
    .ok strategy
  | some _, .table _ _ _ | some _, .array _ _ | some _, .tables _ _ =>
    .error (faultAt key.mark value .notEmpty)
  | some _, _ => .error (faultAt key.mark value (.notTable value.form))

/-- A strategy, given by its name or by a table. -/
def readStrategy (key : Nat) (node : Node) : Except EntryFault Strategy :=
  match node with
  | .scalar _ (.text name) =>
    match strategyOf? name with
    | some strategy => .ok strategy
    | none => .error (faultAt key node (.unknownStrategy name))
  | .table _ _ [] => .error (faultAt key node .noEntry)
  | .table _ _ [(tag, value)] => readTagged tag value
  | .table _ _ _ => .error (faultAt key node .severalEntries)
  | _ => .error (faultAt key node .neitherTextNorTable)

/-! ## Documents -/

/-- Takes up an entry. -/
def applyEntry (s : Settings) (key : Key) (node : Node) : Except EntryFault Settings :=
  match key.name with
  | "builtins" => (readTexts key.mark node).map ({ s with builtins := · })
  | "root_label" => (readText key.mark node).map ({ s with rootLabel := · })
  | "global_label" => (readText key.mark node).map ({ s with globalLabel := · })
  | "seed_label" => (readText key.mark node).map ({ s with seedLabel := · })
  | "strategy" => (readStrategy key.mark node).map ({ s with strategy := · })
  | "trace" => (readBool key.mark node).map ({ s with trace := · })
  | _ => .ok s

/-- The settings that the entries of a document give, taken up in order. -/
def ofEntries (es : Entries) : Except EntryFault Settings :=
  es.foldlM (fun s e => s.applyEntry e.1 e.2) {}

/-- The place in a text from which so many characters are left. -/
def positionOf (cs : List Char) (mark : Nat) : Position :=
  let before := cs.take (cs.length - mark)
  ⟨before.count '\n' + 1, (before.reverse.takeWhile (· != '\n')).length + 1⟩

/-- The settings that a text gives. -/
def ofText (text : String) : Except SettingsFault Settings :=
  let cs := singleNewlines text.toList
  match Toml.read cs with
  | none => .error .malformed
  | some es =>
    match ofEntries es with
    | .ok s => .ok s
    | .error (mark, fault) => .error (.illTyped (positionOf cs mark) fault)

/-- The settings that the content of a file gives; there is none if the file does not exist. -/
def ofFile (path : String) (content : Option ByteArray) : Except SettingsFault Settings :=
  match content with
  | none => .error (.unreadable path .missing)
  | some bytes =>
    match String.fromUTF8? bytes with
    | none => .error (.unreadable path .notUnicode)
    | some text => ofText text

end Settings

end SpacedNames
