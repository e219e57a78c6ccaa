import SpacedNames.Scoping.Dump

/-!
# Commands on an environment

* `Environment.Command`: the operations that change an environment, as data.
* `Environment.exec`: carries one out, and tells its reply and what it logs. A failed one changes
  nothing.
* `Environment.run`: carries out several in order.
* `Trail`: an environment with saved copies of earlier states, for a parser that backtracks.
* `Trail.Command`, `exec`, `run`: what such a parser does, as data, and carried out.
-/

namespace SpacedNames

namespace Environment

/-- The operations that change an environment. -/
inductive Command where
  | openScope (label : String)
  | closeScope
  | declare (name : Name)
  deriving DecidableEq

/-- What an operation answers. -/
inductive Reply where
  | opened (scope : Handle)
  | closed (scope : Scope)
  /-- The name that had the key before. -/
  | declared (shadowed : Option Name)
  | failed (fault : Fault)
  deriving DecidableEq

/-- An environment after an operation, the reply, and what was logged. -/
structure Step where
  environment : Environment
  reply : Reply
  log : List LogEvent
  deriving DecidableEq

/-- Carries out a command. -/
def exec (e : Environment) : Command → Step
  | .openScope label =>
    let (h, next) := e.openScope label
    ⟨next, .opened h, [.scopeOpened h label]⟩
  | .closeScope =>
    match e.closeScope with
    | .ok (scope, next) => ⟨next, .closed scope, [.scopeClosed scope]⟩
    | .error fault => ⟨e, .failed fault, []⟩
  | .declare name =>
    let (shadowed, next) := e.declare name
    ⟨next, .declared shadowed, [.declared name.spelling e.current shadowed.isSome]⟩

/-- Carries out commands in order. -/
def run (e : Environment) (commands : List Command) : Environment :=
  commands.foldl (fun e command => (e.exec command).environment) e

end Environment

/-- An environment and the copies of it that were saved, the last one first. -/
structure Trail where
  environment : Environment
  saved : List Environment := []
  deriving DecidableEq

namespace Trail

/-- Saves a copy of the environment. -/
def save (t : Trail) : Trail :=
  { t with saved := t.environment :: t.saved }

/-- Goes back to the copy saved last, if there is one. -/
def restore? (t : Trail) : Option Trail :=
  match t.saved with
  | [] => none
  | environment :: rest => some ⟨environment, rest⟩

/-- An environment of which no copy is saved yet. -/
def ofEnvironment (environment : Environment) : Trail :=
  ⟨environment, []⟩

/-- What a parser that backtracks does. -/
inductive Command where
  | scopes (command : Environment.Command)
  | save
  | restore
  /-- Goes back to a saved copy and keeps all of them. The last one has the place zero. -/
  | revisit (place : Nat)
  deriving DecidableEq

/-- Carries out a command. Without a copy to go back to nothing changes. -/
def exec (t : Trail) : Command → Trail
  | .scopes command => { t with environment := (t.environment.exec command).environment }
  | .save => t.save
  | .restore => t.restore?.getD t
  | .revisit place => { t with environment := t.saved[place]?.getD t.environment }

/-- Carries out commands in order. -/
def run (t : Trail) (commands : List Command) : Trail :=
  commands.foldl exec t

end Trail

end SpacedNames
