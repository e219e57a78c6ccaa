import SpacedNames.Text.Words

/-!
# Sources and their words

* `Extent`: a range of byte offsets, from `start` up to `stop`. Nothing is assumed of the two: an
  extent may be inverted, or lie outside every text.
* `CutFault`: why a text cannot be cut out of a source, and how this is reported.
* `Source`: a text with an identity. Two sources with one text are still two sources.
* `Token`: a piece of text that says where in which source it stands. A caller may build any
  token; only those that `Source.cut` and `Source.splitWords` make are sure to hold the text
  that stands at their extent.
* `Source.cut`: the token between two offsets, or why there is none.
* `Source.splitWords`: the maximal runs of characters that are not blank, as tokens.
-/

namespace SpacedNames

open Text

/-! ## Extents -/

/-- A range of byte offsets in a source text. -/
structure Extent where
  start : Nat
  stop : Nat
  deriving DecidableEq, Repr, Inhabited

namespace Extent

/-- The bytes between the two offsets, none if they are inverted. -/
def length (e : Extent) : Nat :=
  e.stop - e.start

/-- An extent without bytes. -/
def isEmpty (e : Extent) : Bool :=
  e.length == 0

/-- The smallest extent from the first start to the last stop of two extents. -/
def cover (a b : Extent) : Extent :=
  ⟨min a.start b.start, max a.stop b.stop⟩

/-- Extents in order of their starts, those with one start in order of their stops. -/
def order (a b : Extent) : Ordering :=
  (compare a.start b.start).then (compare a.stop b.stop)

end Extent

/-! ## Why there is no text -/

/-- Why there is no text between two tokens, or under a node of a parse tree. -/
inductive CutFault where
  /-- The two tokens belong to different sources. -/
  | foreignSource (first last : Extent)
  /-- The end comes before the start. -/
  | inverted (start stop : Nat)
  /-- The source, of `length` bytes, cannot be cut at these offsets. -/
  | outOfBounds (start stop length : Nat)
  /-- The node has no tokens. -/
  | emptyNode (kind : String)
  deriving DecidableEq, Repr

namespace CutFault

/-- One line that states the cause. -/
def message : CutFault → String
  | foreignSource _ _ => "Span endpoints come from different sources"
  | inverted start stop =>
    s!"Inverted span: last token ends at {stop}, before first token starts at {start}"
  | outOfBounds start stop length =>
    s!"Span {start}..{stop} is not a valid range of a {length}-byte source"
  | emptyNode kind => s!"Node `{kind}` contains no tokens"

/-- The stable identifier under which the cause is documented. -/
def code : CutFault → String
  | foreignSource _ _ => "wordscope_syntax::foreign_source"
  | inverted _ _ => "wordscope_syntax::inverted_span"
  | outOfBounds _ _ _ => "wordscope_syntax::out_of_bounds"
  | emptyNode _ => "wordscope_syntax::empty_node"

/-- Advice to the caller, where there is any. -/
def help : CutFault → Option String
  | foreignSource _ _ => some "both tokens of a span must belong to the same parse"
  | inverted _ _ | outOfBounds _ _ _ | emptyNode _ => none

end CutFault

/-! ## Sources -/

/-- A source text. The number tells it from other sources with the same text. -/
structure Source where
  id : Nat
  text : String
  deriving DecidableEq, Repr, Inhabited

/-- A piece of text and the place it is said to come from. -/
structure Token where
  text : String
  extent : Extent
  source : Source
  deriving DecidableEq, Repr, Inhabited

namespace Token

/-- Tokens agree if they have one extent in sources of one text, be it twice the same source or
not. -/
def agrees (a b : Token) : Bool :=
  a.source.text == b.source.text && a.extent == b.extent

/-- The token's text, quoted, and its extent. -/
def describe (t : Token) : String :=
  s!"{quoted t.text}@{t.extent.start}..{t.extent.stop}"

end Token

namespace Source

/-- Bytes of the text. -/
def length (src : Source) : Nat :=
  size src.text

/-- The text between two offsets, if the source can be cut at both. -/
def slice? (src : Source) (start stop : Nat) : Option String :=
  (Text.slice? start stop src.text.toList).map String.ofList

/-- The token from offset `start` up to `stop`. -/
def cut (src : Source) (start stop : Nat) : Except CutFault Token :=
  if stop < start then .error (.inverted start stop)
  else match src.slice? start stop with
    | some text => .ok ⟨text, ⟨start, stop⟩, src⟩
    | none => .error (.outOfBounds start stop src.length)

/-- The token for a word that starts at a byte offset; `run` holds its characters, last one
first. -/
def wordToken (src : Source) (start : Nat) (run : List Char) : Token :=
  ⟨String.ofList run.reverse, ⟨start, start + byteLength run⟩, src⟩

/-- Scans the characters that start at byte `offset`. The word in progress, if there is one, is
given by its start and its characters so far, last one first. -/
def scanWords (src : Source) (offset : Nat) : Option (Nat × List Char) → List Char → List Token
  | none, [] => []
  | some (start, run), [] => [src.wordToken start run]
  | none, c :: cs =>
    if isBlank c then src.scanWords (offset + c.utf8Size) none cs
    else src.scanWords (offset + c.utf8Size) (some (offset, [c])) cs
  | some (start, run), c :: cs =>
    if isBlank c then src.wordToken start run :: src.scanWords (offset + c.utf8Size) none cs
    else src.scanWords (offset + c.utf8Size) (some (start, c :: run)) cs

/-- The words of the source, each with its place. -/
def splitWords (src : Source) : List Token :=
  src.scanWords 0 none src.text.toList

/-- A source is shown by its length only. -/
def describe (src : Source) : String :=
  s!"SourceText({src.length})"

end Source

end SpacedNames
