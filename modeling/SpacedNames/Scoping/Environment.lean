import SpacedNames.Fault
import SpacedNames.Scoping.Scope

/-!
# Environments

* `ScopeStack`: the root and the scopes opened above it, each at its slot. Only the innermost one
  is closed, so the live scopes are a stack.
* `ScopeStack.ancestors`, `pathOf`: from a scope towards the root, and the labels on the way.
* `Environment`: the live scopes, the current one, and the registry of everything ever declared.
* `Environment.openScope`, `closeScope`: a scope is opened below the current one, and closed
  towards the root.
* `Environment.declare`: a name is bound in the current scope and registered.
* `Environment.restart`: the same scopes and registry, with the root as the current scope.
* `Environment.lookup`: the nearest name that is spelled exactly so.
* `Environment.standing`: is a candidate a visible name, and could more words make it one? A candidate
  is compared by its words, a spelling is compared as it is.
-/

namespace SpacedNames

open Text

/-! ## The live scopes -/

/-- The live scopes. The root is always one of them. -/
structure ScopeStack where
  root : Scope
  /-- The scopes above the root, innermost last. -/
  inner : List Scope
  /-- The serial of the next scope to be opened. -/
  nextSerial : Nat
  deriving DecidableEq, Inhabited

namespace ScopeStack

/-- The stack with an empty root. -/
def ofRoot (label : String) : ScopeStack :=
  ⟨.empty ⟨0, 0⟩ label none, [], 1⟩

/-- The live scopes, each at its slot. -/
def toList (s : ScopeStack) : List Scope :=
  s.root :: s.inner

/-- Number of live scopes. -/
def size (s : ScopeStack) : Nat :=
  s.toList.length

/-- The live scope of a handle; none once the scope is closed. -/
def scope? (s : ScopeStack) (h : Handle) : Option Scope :=
  s.toList[h.slot]?.filter (·.handle = h)

/-! ### Towards the root -/

/-- At most `fuel` scopes on the way from a handle to the root. -/
def climb (s : ScopeStack) : Nat → Option Handle → List Scope
  | 0, _ => []
  | _ + 1, none => []
  | fuel + 1, some h =>
    match s.scope? h with
    | some scope => scope :: s.climb fuel scope.parent
    | none => []

/-- The scope, its parent, and so on to the root. No way is longer than the number of live
scopes. -/
def ancestors (s : ScopeStack) (h : Handle) : List Scope :=
  s.climb s.size (some h)

/-- The labels from the root to the scope; none if the scope is closed. -/
def pathOf (s : ScopeStack) (h : Handle) : List String :=
  ((s.ancestors h).map Scope.label).reverse

/-! ### Changes -/

/-- Opens a scope below `parent`, in the next free slot and with a serial never used before. -/
def openBelow (s : ScopeStack) (parent : Handle) (label : String) : Handle × ScopeStack :=
  let h : Handle := ⟨s.size, s.nextSerial⟩
  (h, { s with
    inner := s.inner ++ [.empty h label (some parent)]
    nextSerial := s.nextSerial + 1 })

/-- Removes the innermost scope. The root is never removed. -/
def closeInnermost? (s : ScopeStack) : Option (Scope × ScopeStack) :=
  s.inner.getLast?.map fun scope => (scope, { s with inner := s.inner.dropLast })

/-- Changes the live scope of a handle, if there is one. -/
def modify (s : ScopeStack) (h : Handle) (f : Scope → Scope) : ScopeStack :=
  let change (scope : Scope) : Scope := if scope.handle = h then f scope else scope
  match h.slot with
  | 0 => { s with root := change s.root }
  | n + 1 => { s with inner := s.inner.modify n change }

end ScopeStack

/-! ## Environments -/

/-- The record of one declaration. -/
structure Definition where
  name : Name
  /-- Where the name was bound. The scope may be closed by now. -/
  scope : Handle
  /-- The labels from the root to that scope. -/
  path : List String
  /-- The name took the place of another one in its scope. -/
  shadows : Bool
  deriving DecidableEq

/-- The scopes and declarations of one parse, and where in them the parse is. -/
structure Environment where
  scopes : ScopeStack
  current : Handle
  registry : List Definition
  deriving DecidableEq, Inhabited

namespace Environment

/-! ### Fresh environments -/

/-- The environment with an empty root scope, which is the current one. -/
def ofRoot (label : String) : Environment :=
  let scopes := ScopeStack.ofRoot label
  ⟨scopes, scopes.root.handle, []⟩

/-- The environment whose root scope holds the names that the language provides. -/
def withBuiltins (label : String) (spellings : List String) : Environment :=
  let scopes := ScopeStack.ofRoot label
  let root := spellings.foldl (fun scope spelling => scope.bind (.builtin spelling)) scopes.root
  ⟨{ scopes with root }, root.handle, []⟩

/-- The environment of a parse that asks for nothing else. -/
def plain : Environment :=
  ofRoot "<builtin>"

/-! ### Where the parse is -/

/-- The current scope. -/
def currentScope (e : Environment) : Scope :=
  (e.scopes.scope? e.current).getD e.scopes.root

/-- Number of scopes above the root. -/
def depth (e : Environment) : Nat :=
  e.current.depth

/-- The current scope, its parent, and so on to the root. -/
def visible (e : Environment) : List Scope :=
  e.scopes.ancestors e.current

/-- Does the language provide the name that is spelled exactly so? -/
def isBuiltin (e : Environment) (spelling : String) : Bool :=
  e.scopes.root.contains spelling

/-- The definitions whose innermost label is this one. -/
def definitionsIn (e : Environment) (label : String) : List Definition :=
  e.registry.filter (·.path.getLast? == some label)

/-! ### Changes -/

/-- Opens a scope below the current one and makes it current. -/
def openScope (e : Environment) (label : String) : Handle × Environment :=
  let (h, scopes) := e.scopes.openBelow e.current label
  (h, { e with scopes, current := h })

/-- Closes the current scope and makes its parent current. The root stays. -/
def closeScope (e : Environment) : Except Fault (Scope × Environment) :=
  match e.currentScope.parent with
  | none => .error (.belowBottom .scope e.currentScope.label)
  | some parent =>
    match e.scopes.closeInnermost? with
    | none => .error (.belowBottom .scope e.scopes.root.label)
    | some (closed, scopes) => .ok (closed, { e with scopes, current := parent })

/-- Binds a name in the current scope and registers it. Gives the name that had its key there. -/
def declare (e : Environment) (name : Name) : Option Name × Environment :=
  let shadowed := (e.scopes.scope? e.current).bind (·.find? name.key)
  let definition : Definition :=
    { name, scope := e.current, path := e.scopes.pathOf e.current, shadows := shadowed.isSome }
  (shadowed, { e with
    scopes := e.scopes.modify e.current (·.bind name)
    registry := e.registry ++ [definition] })

/-- The same scopes and registry, with the root as the current scope. -/
def restart (e : Environment) : Environment :=
  { e with current := e.scopes.root.handle }

end Environment

/-! ## What is visible -/

/-- A name and the scope that provides it. -/
structure Resolution where
  name : Name
  scope : Handle
  deriving DecidableEq

/-- How a candidate stands. -/
structure Standing where
  /-- The nearest name that the candidate is. -/
  exact : Option Resolution := none
  /-- More words could complete the candidate to a visible name. -/
  extensible : Bool := false
  deriving DecidableEq, Inhabited

namespace Standing

/-- May the candidate take more tokens? -/
def keepsGoing (s : Standing) : Bool :=
  s.exact.isSome || s.extensible

/-- Goes through the scopes, nearest first. The first exact answer counts; once the candidate is
also extensible, no farther scope can change the answer. -/
def scan (key : String) (s : Standing) : List Scope → Standing
  | [] => s
  | scope :: rest =>
    let exact :=
      match s.exact with
      | some found => some found
      | none => (scope.find? key).map (⟨·, scope.handle⟩)
    let extensible := s.extensible || scope.hasContinuation key
    if exact.isSome && extensible then ⟨exact, extensible⟩
    else scan key ⟨exact, extensible⟩ rest

end Standing

namespace Environment

/-- The nearest name that is spelled exactly so. -/
def lookup (e : Environment) (spelling : String) : Option Resolution :=
  e.visible.findSome? fun scope => (scope.get? spelling).map (⟨·, scope.handle⟩)

/-- How the words of a candidate stand among the visible names. -/
def standing (e : Environment) (candidate : String) : Standing :=
  Standing.scan (normalize candidate) {} e.visible

end Environment

end SpacedNames
