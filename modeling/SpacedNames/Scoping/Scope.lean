import SpacedNames.Text.Words

/-!
# Names and scopes

* `Name`: a name as it is spelled, with its key, which is the words joined by single spaces.
  Names that differ in spacing only have one key.
* `Name.isKey`, `Name.continues`: is a candidate, itself a key, this name, or could more words
  complete it to this name?
* `Bindings`: names with pairwise different keys. A new name takes the place of the one with its
  key, however that one was spelled.
* `Handle`: what a caller holds of a scope. Its slot is used again once the scope is closed, its
  serial is not, so the handle of a closed scope does not come to stand for a later one.
* `Scope`: a label, the bindings, and the handle of the parent.
* `Scope.get?`: the local name that is spelled exactly so.
-/

namespace SpacedNames

open Text

/-! ## Names -/

/-- Where a name comes from. -/
inductive Origin where
  /-- The language provides it. -/
  | builtin
  /-- The program that is parsed declares it. -/
  | declared
  deriving DecidableEq, Repr, Inhabited

/-- A name, spelled as at its declaration. -/
structure Name where
  spelling : String
  origin : Origin
  /-- What candidates are compared with. -/
  key : String := normalize spelling
  key_eq : key = normalize spelling := by rfl
  deriving DecidableEq, Repr

namespace Name

/-- A name that the language provides. -/
def builtin (spelling : String) : Name :=
  { spelling, origin := .builtin }

/-- A name that the program declares. -/
def declared (spelling : String) : Name :=
  { spelling, origin := .declared }

/-- Words of the name. A key holds no blanks but the spaces between its words. -/
def wordCount (n : Name) : Nat :=
  ((n.key.toList.splitOnP (· == ' ')).filter (· ≠ [])).length

/-- Is the candidate exactly this name? -/
def isKey (n : Name) (candidate : String) : Bool :=
  n.key == candidate

/-- What follows the candidate's bytes in the key, if the key can be cut there. -/
def afterBytes? (n : Name) (candidate : String) : Option (List Char) :=
  dropBytes? (size candidate) n.key.toList

/-- Is the key the candidate with one or more words after it? -/
def continues (n : Name) (candidate : String) : Bool :=
  decide (candidate ≠ "") && decide (size candidate < size n.key) &&
    candidate.toList.isPrefixOf n.key.toList &&
    (n.afterBytes? candidate).any (·.head? == some ' ')

end Name

/-! ## Bindings -/

/-- Names with pairwise different keys, the one bound last first. -/
structure Bindings where
  toList : List Name
  distinct : (toList.map Name.key).Nodup
  deriving DecidableEq

namespace Bindings

/-- No names. -/
def empty : Bindings :=
  ⟨[], by simp⟩

instance : Inhabited Bindings := ⟨empty⟩

/-- The name with this key. -/
def find? (b : Bindings) (key : String) : Option Name :=
  b.toList.find? (·.key == key)

/-- The bindings with `n` in the place of the name that had its key. -/
def insert (b : Bindings) (n : Name) : Bindings where
  toList := n :: b.toList.filter (·.key ≠ n.key)
  distinct := by
    rw [List.map_cons, List.nodup_cons]
    refine ⟨by simp, ?_⟩
    exact b.distinct.sublist (List.filter_sublist.map _)

theorem find?_insert_self (b : Bindings) (n : Name) : (b.insert n).find? n.key = some n := by
  simp [find?, insert]

theorem find?_insert_of_ne (b : Bindings) {n : Name} {key : String} (h : key ≠ n.key) :
    (b.insert n).find? key = b.find? key := by
  rw [find?, find?, insert, List.find?_cons_of_neg (by simpa using Ne.symm h), List.find?_filter]
  congr 1
  funext m
  by_cases hm : m.key = key <;> simp [hm, h]

/-- Number of names. -/
def size (b : Bindings) : Nat :=
  b.toList.length

/-- The names in order of their spelling. -/
def sorted (b : Bindings) : List Name :=
  b.toList.mergeSort fun m n => decide (m.spelling ≤ n.spelling)

/-- Could more words complete the key to a name? -/
def hasContinuation (b : Bindings) (key : String) : Bool :=
  b.toList.any (·.continues key)

end Bindings

/-! ## Scopes -/

/-- The handle of a scope. -/
structure Handle where
  slot : Nat
  serial : Nat
  deriving DecidableEq, Repr, Inhabited

namespace Handle

/-- Nesting depth of the scope, zero for the root. -/
def depth (h : Handle) : Nat :=
  h.slot

/-- A handle is shown by its serial. -/
def describe (h : Handle) : String :=
  s!"scope#{h.serial}"

end Handle

/-- A lexical scope. The root has no parent. -/
structure Scope where
  handle : Handle
  label : String
  parent : Option Handle
  bindings : Bindings
  deriving DecidableEq, Inhabited

namespace Scope

/-- A scope without names. -/
def empty (handle : Handle) (label : String) (parent : Option Handle) : Scope :=
  ⟨handle, label, parent, .empty⟩

/-- A scope without a parent. -/
def isRoot (s : Scope) : Bool :=
  s.parent.isNone

/-- Number of local names. -/
def size (s : Scope) : Nat :=
  s.bindings.size

/-- A scope without local names. -/
def isEmpty (s : Scope) : Bool :=
  s.size == 0

/-- The local names in order of their spelling. -/
def names (s : Scope) : List Name :=
  s.bindings.sorted

/-- The local name with this key. -/
def find? (s : Scope) (key : String) : Option Name :=
  s.bindings.find? key

/-- The local name that is spelled exactly so. -/
def get? (s : Scope) (spelling : String) : Option Name :=
  (s.find? (normalize spelling)).filter (·.spelling == spelling)

/-- Is a local name spelled exactly so? -/
def contains (s : Scope) (spelling : String) : Bool :=
  (s.get? spelling).isSome

/-- Could more words complete the key to a local name? -/
def hasContinuation (s : Scope) (key : String) : Bool :=
  s.bindings.hasContinuation key

/-- The scope with one more name. -/
def bind (s : Scope) (n : Name) : Scope :=
  { s with bindings := s.bindings.insert n }

end Scope

end SpacedNames
