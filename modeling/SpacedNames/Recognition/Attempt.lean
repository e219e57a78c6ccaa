import SpacedNames.Scoping.Dump

/-!
# Recognizing names of several tokens

Nothing in a run of tokens says where a name ends. A candidate grows by one token at a time as
long as it is a visible name or the start of one; the longest name on the way is the answer.

* `Match`: an answer.
* `Attempt`: an attempt in progress. `Attempt.start` begins it, `Attempt.offer` offers it a token,
  `Attempt.outcome` is its answer so far.
* `Attempt.Command`: what can be asked of an attempt, as data. A grammar opens, closes and declares in
  between, so each command brings the environment that is there when it is given. `Attempt.exec`,
  `Attempt.run`: carries out a command, or several in order.
* `Environment.longestMatch`: looks ahead over a run of tokens and takes the longest name.
* `Environment.checkpointMatch`: offers one token after the other, tells each decision, and falls
  back to the last name on the way. Both come to one answer.

Of a token only its text counts.
-/

namespace SpacedNames

open Text

/-! ## Attempts -/

/-- The name found at the start of a run of tokens. -/
structure Match where
  /-- Number of tokens. -/
  len : Nat
  /-- The texts of the tokens, joined by single spaces. -/
  text : String
  /-- The name; none for a single token that is no name. -/
  resolution : Option Resolution
  deriving DecidableEq

namespace Match

/-- Is this a visible name? -/
def isDeclared (m : Match) : Bool :=
  m.resolution.isSome

end Match

/-- An attempt to recognize one name. -/
structure Attempt where
  /-- The texts of the accepted tokens, joined by single spaces. -/
  buffer : String := ""
  /-- Bytes of the first token's text in the buffer. -/
  head : Nat := 0
  /-- Number of accepted tokens. -/
  count : Nat := 0
  /-- How the last candidate stood, also if it was refused. -/
  last : Option Standing := none
  /-- The longest name so far. -/
  confirmed : Option Match := none
  deriving DecidableEq, Inhabited

namespace Attempt

/-- No attempt. -/
def empty : Attempt := {}

/-- Takes the whole buffer as the name so far, if it stands as one. -/
def confirm (a : Attempt) (standing : Standing) : Attempt :=
  match standing.exact with
  | some resolution => { a with confirmed := some ⟨a.count, a.buffer, some resolution⟩ }
  | none => a

/-- Begins an attempt. Any token that is not blank may start a name; a blank one leaves no
attempt. -/
def start (e : Environment) (text : String) : Attempt :=
  if isBlankText text then empty
  else
    let standing := e.standing text
    let a : Attempt := { buffer := text, head := size text, count := 1 }
    { a.confirm standing with last := some standing }

/-- Offers a token. It is accepted if the longer candidate is a visible name or the start of one;
if not, the candidate stays as it is. A blank token is never accepted, and the first token of an
attempt begins it. -/
def offer (a : Attempt) (e : Environment) (text : String) : Bool × Attempt :=
  if isBlankText text then (false, a)
  else if a.count = 0 then (true, start e text)
  else
    let buffer := a.buffer ++ " " ++ text
    let standing := e.standing buffer
    if standing.keepsGoing then
      let longer := { a with buffer, count := a.count + 1 }
      (true, { longer.confirm standing with last := some standing })
    else (false, { a with last := some standing })

/-- Is the whole candidate a visible name? -/
def isComplete (a : Attempt) : Bool :=
  a.confirmed.map Match.len == some a.count && decide (0 < a.count)

/-- The text of the first token, cut out of the buffer. -/
def firstText? (a : Attempt) : Option String :=
  (takeBytes? a.head a.buffer.toList).map String.ofList

/-- The answer: the longest name so far, else the first token, which is no name yet. -/
def outcome (a : Attempt) : Option Match :=
  if a.count = 0 then none
  else match a.confirmed with
    | some found => some found
    | none => a.firstText?.map (⟨1, ·, none⟩)

/-! ## Commands -/

/-- What can be asked of an attempt. -/
inductive Command where
  /-- Begins an attempt, whatever was there before. -/
  | start (e : Environment) (text : String)
  | offer (e : Environment) (text : String)
  /-- Gives the attempt up. -/
  | reset
  deriving DecidableEq

/-- Carries out a command. -/
def exec (a : Attempt) : Command → Attempt
  | .start e text => start e text
  | .offer e text => (a.offer e text).2
  | .reset => empty

/-- Carries out commands in order. -/
def run (a : Attempt) (commands : List Command) : Attempt :=
  commands.foldl exec a

end Attempt

/-! ## The name at the start of a run of tokens -/

/-! ### Looking ahead -/

/-- Offers the texts one by one until one is refused. -/
def Attempt.absorb (a : Attempt) (e : Environment) : List String → Attempt
  | [] => a
  | text :: rest =>
    match a.offer e text with
    | (true, longer) => longer.absorb e rest
    | (false, same) => same

/-- The name at the start of a run of tokens: the longest one that can be reached, else the first
token alone. A blank token starts no name. -/
def Environment.longestMatch (e : Environment) : List String → Option Match
  | [] => none
  | first :: rest =>
    let a := Attempt.start e first
    if a.count = 0 then none else (a.absorb e rest).outcome

/-! ### Step by step -/

/-- The decision that tells an answer. -/
def Match.decision (m : Match) : Decision :=
  .matched m.text m.len m.isDeclared

/-- Offers the texts one by one until one is refused, and tells each decision. -/
def Attempt.offerAll (a : Attempt) (e : Environment) : List String → Attempt × List Decision
  | [] => (a, [])
  | text :: rest =>
    match a.offer e text with
    | (true, longer) =>
      let (final, decisions) := longer.offerAll e rest
      (final, .offered text true :: decisions)
    | (false, same) => (same, [.offered text false])

/-- The name at the start of a run of tokens, and how it was found. -/
def Environment.checkpointMatch (e : Environment) :
    List String → Option Match × List Decision
  | [] => (none, [])
  | first :: rest =>
    let a := Attempt.start e first
    if a.count = 0 then (none, [])
    else
      let (final, offers) := a.offerAll e rest
      match final.outcome with
      | none => (none, .started first :: offers)
      | some found => (some found, .started first :: offers ++ [found.decision])

end SpacedNames
