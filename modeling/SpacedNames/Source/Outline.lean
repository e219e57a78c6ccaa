import SpacedNames.Source.Words

/-!
# Parse trees

* `ParseTree`: nodes with a kind, children, and for a terminal its token. A terminal may have
  children too; its token then stands for all of it.
* `ParseTree.tokens`: the tokens of a tree in document order.
* `ParseTree.firstToken`, `lastToken`: the two ends of that list, found without building it.
* `ParseTree.agrees`: one shape, and tokens that agree.
* `textBetween`: the text from the start of one token to the end of another.
* `ParseTree.text`, `ParseTree.extent`: what the tokens of a tree cover.

A declared name is the text exactly as written, so it is cut out of the source. Putting token
texts together would lose the spacing.
-/

namespace SpacedNames

/-- A node of a parse tree. -/
inductive ParseTree where
  | node (kind : String) (leaf : Option Token) (children : List ParseTree)
  deriving Repr, Inhabited

namespace ParseTree

/-- What the grammar calls this node. -/
def kind : ParseTree → String
  | node kind _ _ => kind

/-- The token of a terminal. -/
def leaf : ParseTree → Option Token
  | node _ leaf _ => leaf

/-- The nodes directly below this one. -/
def children : ParseTree → List ParseTree
  | node _ _ children => children

/-- A terminal has a token of its own. -/
def isTerminal (t : ParseTree) : Bool :=
  t.leaf.isSome

/-- The terminal for one token. -/
def terminal (t : Token) : ParseTree :=
  node "token" (some t) []

/-- A node without a token. -/
def branch (kind : String) (children : List ParseTree) : ParseTree :=
  node kind none children

/-- A node with one terminal for each token. -/
def ofTokens (kind : String) (ts : List Token) : ParseTree :=
  branch kind (ts.map terminal)

/-! ## Tokens in document order -/

mutual

/-- Adds the tokens of a tree to those collected before. -/
def collect (acc : Array Token) : ParseTree → Array Token
  | node _ (some t) _ => acc.push t
  | node _ none children => collectAll acc children

/-- Adds the tokens of several trees, one tree after the other. -/
def collectAll (acc : Array Token) : List ParseTree → Array Token
  | [] => acc
  | t :: ts => collectAll (collect acc t) ts

end

/-- The tokens of a tree. Below a terminal nothing is visited. -/
def tokens (t : ParseTree) : List Token :=
  (collect #[] t).toList

mutual

theorem toList_collect (acc : Array Token) :
    ∀ t : ParseTree, (collect acc t).toList = acc.toList ++ t.tokens
  | node _ (some t) _ => by simp [collect, tokens]
  | node _ none cs => by
    rw [tokens, collect, collect, toList_collectAll acc cs, toList_collectAll #[] cs]
    simp

theorem toList_collectAll (acc : Array Token) :
    ∀ ts : List ParseTree, (collectAll acc ts).toList = acc.toList ++ ts.flatMap tokens
  | [] => by simp [collectAll]
  | t :: ts => by
    rw [collectAll, toList_collectAll _ ts, toList_collect acc t]
    simp

end

mutual

/-- The first token of a tree. -/
def firstToken : ParseTree → Option Token
  | node _ (some t) _ => some t
  | node _ none children => firstTokenOf children

/-- The first token of the first tree that has one. -/
def firstTokenOf : List ParseTree → Option Token
  | [] => none
  | t :: ts =>
    match firstToken t with
    | some found => some found
    | none => firstTokenOf ts

end

mutual

/-- The last token of a tree. -/
def lastToken : ParseTree → Option Token
  | node _ (some t) _ => some t
  | node _ none children => lastTokenOf children

/-- The last token of the last tree that has one. -/
def lastTokenOf : List ParseTree → Option Token
  | [] => none
  | t :: ts =>
    match lastTokenOf ts with
    | some found => some found
    | none => lastToken t

end

/-! ## Agreement -/

/-- Do the tokens of two nodes agree, or have both none? -/
def leafAgrees : Option Token → Option Token → Bool
  | none, none => true
  | some a, some b => a.agrees b
  | none, some _ | some _, none => false

mutual

/-- Trees agree if they have one shape, one kind at each node, and tokens that agree. -/
def agrees : ParseTree → ParseTree → Bool
  | node k t cs, node k' t' cs' => k == k' && leafAgrees t t' && allAgree cs cs'

/-- Do the trees agree one by one? -/
def allAgree : List ParseTree → List ParseTree → Bool
  | [], [] => true
  | a :: as, b :: bs => agrees a b && allAgree as bs
  | [], _ :: _ | _ :: _, [] => false

end

end ParseTree

/-! ## The text under a node -/

/-- The source text from the start of `first` to the end of `last`. -/
def textBetween (first last : Token) : Except CutFault String :=
  let start := first.extent.start
  let stop := last.extent.stop
  if first.source.id ≠ last.source.id then .error (.foreignSource first.extent last.extent)
  else if stop < start then .error (.inverted start stop)
  else match first.source.slice? start stop with
    | some text => .ok text
    | none => .error (.outOfBounds start stop first.source.length)

namespace ParseTree

/-- The source text from the first to the last token of the tree. -/
def text (t : ParseTree) : Except CutFault String :=
  match t.firstToken, t.lastToken with
  | some first, some last => textBetween first last
  | _, _ => .error (.emptyNode t.kind)

/-- The extent that covers the first and the last token of the tree. -/
def extent (t : ParseTree) : Option Extent :=
  match t.firstToken, t.lastToken with
  | some first, some last => some (first.extent.cover last.extent)
  | _, _ => none

end ParseTree

end SpacedNames
