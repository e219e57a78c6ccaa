import SpacedNames.Scoping.Environment

/-!
# Traces, logs and dumps

What people read of a parse. The texts in it stand between quotation marks, but for the labels in the
path of a definition.

* `Decision`: one step of recognizing a name, and its line. Recognizing a name changes nothing
  outside; what was decided on the way is told step by step, to a `Sink`.
* `LogEvent`: what happened, how it is filed and worded.
* `Environment.dump`: an entry for each live scope, from the root inwards, and one for each
  definition, in order.
-/

namespace SpacedNames

open Text

/-! ## Decisions -/

/-- One step of recognizing a name. -/
inductive Decision where
  /-- A new candidate was started. -/
  | started (text : String)
  /-- A token was offered to the candidate. -/
  | offered (text : String) (accepted : Bool)
  /-- A run of tokens was resolved to a name of `len` tokens. -/
  | matched (text : String) (len : Nat) (declared : Bool)
  deriving DecidableEq, Repr

namespace Decision

/-- The line of a step. -/
def line : Decision → String
  | started text => s!"start {quoted text}"
  | offered text accepted =>
    let verdict := if accepted then "keep" else "stop"
    s!"  follow {quoted text} -> {verdict}"
  | matched text len declared =>
    let status := if declared then "declared" else "undeclared"
    s!"match {quoted text} ({len} tokens, {status})"

/-- The lines of the steps, each ended by a newline. -/
def render (ds : List Decision) : String :=
  String.join (ds.map fun d => d.line ++ "\n")

end Decision

/-- Where decisions are sent. -/
inductive Sink where
  /-- To the log. -/
  | log
  /-- To a buffer that keeps them until it is drained. -/
  | recorder
  /-- To a function of the caller. -/
  | listener
  deriving DecidableEq, Repr

/-! ## The log -/

/-- How much detail a reader of the log asks for. -/
inductive LogLevel where
  | debug
  | trace
  deriving DecidableEq, Repr

/-- What is worth a line in the log. -/
inductive LogEvent where
  | scopeOpened (scope : Handle) (label : String)
  | scopeClosed (scope : Scope)
  | declared (spelling : String) (scope : Handle) (shadows : Bool)
  /-- A label went on top of `depth` others. -/
  | labelPushed (label : String) (depth : Nat)
  | labelPopped (label : String)
  /-- The parse ended while labels were still on the stack. -/
  | labelsLeft (count : Nat)
  | decided (decision : Decision)
  deriving DecidableEq

namespace LogLevel

/-- The level as it is written. -/
def describe : LogLevel → String
  | debug => "DEBUG"
  | trace => "TRACE"

end LogLevel

namespace LogEvent

/-- The detail of the event. -/
def level : LogEvent → LogLevel
  | scopeOpened _ _ | scopeClosed _ | declared _ _ _ | labelsLeft _ => .debug
  | labelPushed _ _ | labelPopped _ | decided _ => .trace

/-- What the event is filed under. -/
def target : LogEvent → String
  | scopeOpened _ _ | scopeClosed _ | declared _ _ _ => "wordscope_resolve::chain"
  | labelPushed _ _ | labelPopped _ => "wordscope_resolve::names"
  | labelsLeft _ => "wordscope_resolve::resolver"
  | decided _ => "wordscope::matcher"

/-- The line of the event. -/
def message : LogEvent → String
  | scopeOpened scope label => s!"push {scope.describe} {quoted label} (depth {scope.depth})"
  | scopeClosed scope =>
    s!"pop {scope.handle.describe} {quoted scope.label} ({scope.size} symbols)"
  | declared spelling scope shadows =>
    let verb := if shadows then "redefine" else "define"
    s!"{verb} {quoted spelling} in {scope.describe}"
  | labelPushed label depth => s!"push name {quoted label} (depth {depth})"
  | labelPopped label => s!"pop name {quoted label}"
  | labelsLeft count => s!"finishing with {count} unpopped names"
  | decided decision => decision.line

end LogEvent

/-! ## The dump -/

/-- The entry of a live scope, indented by its depth. -/
def Scope.entry (s : Scope) : String :=
  let indent := String.ofList (List.replicate (2 * s.handle.depth) ' ')
  s!"{indent}{s.handle.describe} {quoted s.label} ({s.size} symbols)\n"

/-- The entry of a definition. The labels of the path are shown as they are. -/
def Definition.entry (d : Definition) : String :=
  let path := " > ".intercalate d.path
  let shadow := if d.shadows then " (shadows)" else ""
  s!"def {quoted d.name.spelling} in {path}{shadow}\n"

/-- The live scopes and the registry as text. -/
def Environment.dump (e : Environment) : String :=
  String.join (e.scopes.toList.map Scope.entry ++ e.registry.map Definition.entry)

end SpacedNames
