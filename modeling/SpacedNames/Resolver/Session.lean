import SpacedNames.Recognition.Attempt
import SpacedNames.Scoping.Command
import SpacedNames.Settings.Decode
import SpacedNames.Source.Outline

/-!
# Resolvers

A grammar rule that introduces a construct pushes the construct's label; the next scope that is
opened takes the label on top. Labels come and go with constructs, which need not coincide with
scopes.

* `LabelStack`: the seed, which is never popped, and the labels above it.
* `Resolver`: the state of name resolution for one parse. It starts with the root scope and a
  global scope on top of it.
* `Resolver.start`, `offer`: an attempt to recognize a name, token by token.
* `Resolver.recognize`: the name at the start of a run of tokens, found in the configured way.
* `Resolver.Command`: what the actions of a grammar ask of a resolver, as data. `Resolver.exec`
  carries one out, and tells its reply, the decisions it sends and what it logs. A failed one changes
  nothing. `Resolver.run`: carries out several in order.
* `Session`: a resolver with the decisions that its recorder and its listener have taken so far.

The functions that recognize names also give the decisions that they send: none while no sink is
installed.
-/

namespace SpacedNames

open Text

/-! ## Labels -/

/-- A stack of labels that is never empty. -/
structure LabelStack where
  seed : String := "<local>"
  /-- The labels above the seed, topmost first. -/
  pushed : List String := []
  deriving DecidableEq, Repr, Inhabited

namespace LabelStack

/-- The stack that holds only its seed. -/
def ofSeed (seed : String) : LabelStack :=
  { seed }

/-- The label that the next scope takes. -/
def top (s : LabelStack) : String :=
  s.pushed.head?.getD s.seed

/-- Number of labels above the seed. -/
def depth (s : LabelStack) : Nat :=
  s.pushed.length

/-- The labels from the seed up to the top. -/
def toList (s : LabelStack) : List String :=
  s.seed :: s.pushed.reverse

/-- One more label. -/
def push (s : LabelStack) (label : String) : LabelStack :=
  { s with pushed := label :: s.pushed }

/-- The top label and the stack without it. The seed is never popped. -/
def pop (s : LabelStack) : Except Fault (String × LabelStack) :=
  match s.pushed with
  | [] => .error (.belowBottom .label s.seed)
  | label :: rest => .ok (label, { s with pushed := rest })

/-! ### Commands -/

/-- The operations that change a stack of labels. -/
inductive Command where
  | push (label : String)
  | pop
  deriving DecidableEq

/-- What an operation answers. -/
inductive Reply where
  | pushed
  | popped (label : String)
  | failed (fault : Fault)
  deriving DecidableEq

/-- A stack of labels after an operation, the reply, and what was logged. -/
structure Step where
  labels : LabelStack
  reply : Reply
  log : List LogEvent
  deriving DecidableEq

/-- Carries out a command. -/
def exec (s : LabelStack) : Command → Step
  | .push label => ⟨s.push label, .pushed, [.labelPushed label s.toList.length]⟩
  | .pop =>
    match s.pop with
    | .ok (label, next) => ⟨next, .popped label, [.labelPopped label]⟩
    | .error fault => ⟨s, .failed fault, []⟩

end LabelStack

/-! ## The state of a parse -/

/-- The state of one parse. -/
structure Resolver where
  settings : Settings
  environment : Environment
  labels : LabelStack
  attempt : Attempt
  sink : Option Sink
  deriving DecidableEq

namespace Resolver

/-- The environment of the language, with the root as current scope. -/
def language (settings : Settings) : Environment :=
  .withBuiltins settings.rootLabel settings.builtins

/-- A resolver with these settings. -/
def ofSettings (settings : Settings) : Resolver where
  settings := settings
  environment := ((language settings).openScope settings.globalLabel).2
  labels := .ofSeed settings.seedLabel
  attempt := .empty
  sink := if settings.trace then some .log else none

/-- What is logged when a resolver with these settings starts. -/
def openingLog (settings : Settings) : List LogEvent :=
  [.scopeOpened ((language settings).openScope settings.globalLabel).1 settings.globalLabel]

/-- What is logged when the parse is over. -/
def closingLog (r : Resolver) : List LogEvent :=
  if 0 < r.labels.depth then [.labelsLeft r.labels.depth] else []

/-! ### Sinks -/

/-- Are decisions sent anywhere? -/
def isTracing (r : Resolver) : Bool :=
  r.sink.isSome

/-- Installs a sink, or none. -/
def withSink (r : Resolver) (sink : Option Sink) : Resolver :=
  { r with sink }

/-- The decisions, if a sink is there to take them. -/
def sent (r : Resolver) (ds : List Decision) : List Decision :=
  if r.isTracing then ds else []

/-! ### Names, token by token -/

/-- Begins an attempt with the text of a token. -/
def start (r : Resolver) (text : String) : Resolver × List Decision :=
  ({ r with attempt := .start r.environment text }, r.sent [.started text])

/-- Offers the text of a token to the attempt. -/
def offer (r : Resolver) (text : String) : Bool × Resolver × List Decision :=
  let (accepted, attempt) := r.attempt.offer r.environment text
  (accepted, { r with attempt }, r.sent [.offered text accepted])

/-! ### Names in a run of tokens -/

/-- The name at the start of a run of tokens, found by looking ahead. -/
def longestMatch (r : Resolver) (texts : List String) : Option Match × List Decision :=
  match r.environment.longestMatch texts with
  | none => (none, [])
  | some found => (some found, r.sent [found.decision])

/-- The name at the start of a run of tokens, found in the configured way. The attempt in
progress is left alone. -/
def recognize (r : Resolver) (texts : List String) : Option Match × List Decision :=
  match r.settings.strategy with
  | .lookahead => r.longestMatch texts
  | .checkpoint =>
    let (answer, ds) := r.environment.checkpointMatch texts
    (answer, r.sent ds)

/-! ### For the author of a grammar -/

/-- The state in one line. -/
def describe (r : Resolver) : String :=
  let labels := ", ".intercalate (r.labels.toList.map quoted)
  let current := r.environment.current
  "NameResolver \x7b current: ScopeId \x7b " ++
    s!"slot: {current.slot}, serial: {current.serial}" ++ " \x7d, names: [" ++
    labels ++ s!"], candidate: {quoted r.attempt.buffer}, tracing: {r.isTracing}" ++ " \x7d"

/-! ## Commands -/

/-- What the actions of a grammar ask of a resolver. -/
inductive Command where
  /-- Opens a scope with the label on top of the label stack. -/
  | openScope
  | closeScope
  | pushLabel (label : String)
  /-- Pushes the text of a node as a label. -/
  | pushNode (node : ParseTree)
  | popLabel
  | declare (spelling : String)
  /-- Declares the text of a node as a name. -/
  | declareNode (node : ParseTree)
  | start (text : String)
  | offer (text : String)
  | longestMatch (texts : List String)
  | recognize (texts : List String)
  | setSink (sink : Option Sink)

/-- What a command answers. -/
inductive Reply where
  | done
  | scopes (reply : Environment.Reply)
  | labels (reply : LabelStack.Reply)
  | offered (accepted : Bool)
  | found (answer : Option Match)
  /-- The node has no text. -/
  | noText (cause : CutFault)
  deriving DecidableEq

/-- Why the command failed, if it did. -/
def Reply.fault? : Reply → Option Fault
  | scopes (.failed fault) => some fault
  | labels (.failed fault) => some fault
  | noText cause => some (.cut cause)
  | _ => none

/-- A resolver after a command, the reply, the decisions for its sink, and what was logged
besides. -/
structure Step where
  resolver : Resolver
  reply : Reply
  decisions : List Decision := []
  log : List LogEvent := []
  deriving DecidableEq

/-- Carries out a command on the environment. -/
def execScopes (r : Resolver) (command : Environment.Command) : Step :=
  let step := r.environment.exec command
  { resolver := { r with environment := step.environment }
    reply := .scopes step.reply
    log := step.log }

/-- Carries out a command on the labels. -/
def execLabels (r : Resolver) (command : LabelStack.Command) : Step :=
  let step := r.labels.exec command
  { resolver := { r with labels := step.labels }, reply := .labels step.reply, log := step.log }

/-- Goes on with the text of a node, if it has one. -/
def withText (r : Resolver) (node : ParseTree) (next : String → Step) : Step :=
  match node.text with
  | .ok text => next text
  | .error cause => { resolver := r, reply := .noText cause }

/-- Carries out a command. -/
def exec (r : Resolver) : Command → Step
  | .openScope => r.execScopes (.openScope r.labels.top)
  | .closeScope => r.execScopes .closeScope
  | .pushLabel label => r.execLabels (.push label)
  | .pushNode node => r.withText node fun label => r.execLabels (.push label)
  | .popLabel => r.execLabels .pop
  | .declare spelling => r.execScopes (.declare (.declared spelling))
  | .declareNode node =>
    r.withText node fun spelling => r.execScopes (.declare (.declared spelling))
  | .start text =>
    let (resolver, decisions) := r.start text
    { resolver, reply := .done, decisions }
  | .offer text =>
    let (accepted, resolver, decisions) := r.offer text
    { resolver, reply := .offered accepted, decisions }
  | .longestMatch texts =>
    let (answer, decisions) := r.longestMatch texts
    { resolver := r, reply := .found answer, decisions }
  | .recognize texts =>
    let (answer, decisions) := r.recognize texts
    { resolver := r, reply := .found answer, decisions }
  | .setSink sink => { resolver := r.withSink sink, reply := .done }

/-- Carries out commands in order. -/
def run (r : Resolver) (commands : List Command) : Resolver :=
  commands.foldl (fun r command => (r.exec command).resolver) r

end Resolver

/-! ## Sessions -/

/-- A resolver and what its sinks hold. -/
structure Session where
  resolver : Resolver
  /-- What is in the recorder's buffer. -/
  recorded : List Decision := []
  /-- What the listener was called with. -/
  heard : List Decision := []
  deriving DecidableEq

namespace Session

/-- Carries out a command. Decisions go to the sink that was installed before it. -/
def exec (s : Session) (command : Resolver.Command) :
    Session × Resolver.Reply × List LogEvent :=
  let step := s.resolver.exec command
  let next := { s with resolver := step.resolver }
  match s.resolver.sink with
  | some .recorder =>
    ({ next with recorded := s.recorded ++ step.decisions }, step.reply, step.log)
  | some .listener => ({ next with heard := s.heard ++ step.decisions }, step.reply, step.log)
  | some .log => (next, step.reply, step.log ++ step.decisions.map .decided)
  | none => (next, step.reply, step.log)

/-- Empties the recorder's buffer. Gives what was in it. -/
def drain (s : Session) : List Decision × Session :=
  (s.recorded, { s with recorded := [] })

end Session

end SpacedNames
