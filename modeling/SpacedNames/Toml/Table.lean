import SpacedNames.Decimal

/-!
# Documents as trees

* `Node`: a value of a document with its place. Entries of a table keep the order in which they
  were made.
* `TableKind`: how a table came to be, which decides whether it may still grow. A table is made once:
  by its header, by braces, or by keys with dots. What was made in one way is not changed in another.
* `growAt`: changes the table at the end of a path, and makes the tables on the way.
* `addEntry`: a key, with dots or without, and its value.
* `openTable`, `openElement`: a header, and a repeated header.

A place is given by a *mark*: the number of characters from there to the end of the text.
-/

namespace SpacedNames.Toml

open Decimal

/-! ## Values -/

/-- A value without parts. Of a date or a time nothing is kept. -/
inductive Scalar where
  | text (value : String)
  | integer (value : Int)
  | floating (value : Binary)
  | boolean (value : Bool)
  | dateTime
  deriving DecidableEq, Repr

/-- A key of a table and where it stands. -/
structure Key where
  name : String
  mark : Nat
  deriving DecidableEq, Repr

/-- How a table came to be. -/
inductive TableKind where
  /-- Between braces. It never grows. -/
  | braces
  /-- By its header, or as the whole document. -/
  | header
  /-- On the way to a table with a header. Its own header may still come. -/
  | passed
  /-- By a key with dots. -/
  | dotted
  deriving DecidableEq, Repr

/-- A value of a document. -/
inductive Node where
  | scalar (mark : Nat) (value : Scalar)
  | array (mark : Nat) (items : List Node)
  /-- A table. One that has neither braces nor a header has no place of its own. -/
  | table (mark : Option Nat) (kind : TableKind) (entries : List (Key × Node))
  /-- The tables of one repeated header, placed at the first. -/
  | tables (mark : Nat) (elements : List Node)
  deriving Repr

/-- The entries of a table. -/
abbrev Entries := List (Key × Node)

namespace Node

/-- Where the value stands, if it has a place of its own. -/
def mark? : Node → Option Nat
  | scalar mark _ | array mark _ | tables mark _ => some mark
  | table mark _ _ => mark

end Node

namespace Entries

/-- The value of a key. -/
def find? (es : Entries) (name : String) : Option Node :=
  (List.find? (fun e => e.1.name == name) es).map Prod.snd

/-- The entries with another value for a key. The key stays where it is. -/
def replace (es : Entries) (name : String) (node : Node) : Entries :=
  es.map fun e => if e.1.name == name then (e.1, node) else e

/-- The entries without a key. -/
def erase (es : Entries) (name : String) : Entries :=
  es.filter fun e => e.1.name != name

/-- The entries with one more at the end. -/
def append (es : Entries) (key : Key) (node : Node) : Entries :=
  es ++ [(key, node)]

end Entries

/-! ## How tables grow -/

/-- Changes the table at the end of a path. The change is told how that table was made, unless it
is the one where the path starts. Tables that are missing on the way are made; keys with dots
pass only through tables that have no header and no braces. -/
def growAt (dotted : Bool) (change : Option TableKind → Entries → Option Entries) :
    List Key → Option TableKind → Entries → Option Entries
  | [], kind, es => change kind es
  | key :: path, _, es =>
    match es.find? key.name with
    | none => do
      let kind : TableKind := if dotted then .dotted else .passed
      let inner ← growAt dotted change path (some kind) []
      return es.append key (.table none kind inner)
    | some (.table mark kind inner) => do
      if kind = .braces ∨ (dotted ∧ kind = .header) then none
      else
        let inner ← growAt dotted change path (some kind) inner
        return es.replace key.name (.table mark kind inner)
    | some (.tables mark elements) =>
      match elements.getLast? with
      | some (.table last kind inner) => do
        let inner ← growAt dotted change path (some kind) inner
        return es.replace key.name (.tables mark (elements.dropLast ++ [.table last kind inner]))
      | _ => none
    | some (.scalar _ _) | some (.array _ _) => none

/-- Adds a new key to the table where a path starts, or to one made by keys with dots. -/
def addNew (key : Key) (value : Node) (kind : Option TableKind) (es : Entries) : Option Entries :=
  if kind.any (· ≠ .dotted) then none
  else if (es.find? key.name).isSome then none
  else some (es.append key value)

/-- Adds the value of a key that is split at its dots. -/
def addEntry (path : List Key) (value : Node) (es : Entries) : Option Entries :=
  match path.getLast? with
  | some key => growAt true (addNew key value) path.dropLast none es
  | none => none

/-- Makes the table of a header, or takes over one that was only passed so far, which then moves
to the end. -/
def openTable (mark : Nat) (path : List Key) (es : Entries) : Option Entries :=
  match path.getLast? with
  | some key =>
    growAt false (fun _ es =>
      match es.find? key.name with
      | none => some (es.append key (.table (some mark) .header []))
      | some (.table _ .passed inner) =>
        some ((es.erase key.name).append key (.table (some mark) .header inner))
      | some _ => none) path.dropLast none es
  | none => none

/-- Makes one more table of a repeated header. -/
def openElement (mark : Nat) (path : List Key) (es : Entries) : Option Entries :=
  match path.getLast? with
  | some key =>
    growAt false (fun _ es =>
      let element : Node := .table (some mark) .header []
      match es.find? key.name with
      | none => some (es.append key (.tables mark [element]))
      | some (.tables first elements) =>
        some (es.replace key.name (.tables first (elements ++ [element])))
      | some _ => none) path.dropLast none es
  | none => none

end SpacedNames.Toml
