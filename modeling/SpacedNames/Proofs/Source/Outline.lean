import Mathlib.Data.List.Chain
import SpacedNames.Proofs.Source.Ranges

/-!
# What the tokens of a tree tell

A tree is walked in three ways: all its tokens are collected, the first one is searched for from the
left, the last one from the right. All three pass by branches without tokens, and none looks below a
terminal.

* `ParseTree.toList_foldl_collect`: trees that are collected into one list come one after the other.
* `ParseTree.ToldByTokens`: the two searches, the text and the extent of a tree as its tokens tell them.
* `ParseTree.tokens_tell`: every tree is told so, and trees with the same tokens differ at most in the
  kind that is reported where there are none.

The text and the extent of a tree look at its first and its last token only. That all its other tokens
stand between the two comes from their order.

* `InOrder`: each token ends before the next one starts, or where it starts. `InOrder.bounds`: then all
  stand between the start of the first and the end of the last.
* `ParseTree.HasPart`: the nodes of a tree. `HasPart.tokens_infix`: their tokens are neighbours in it.
* `ParseTree.exists_reads`: a tree in order over the tokens of one source has the text of its extent.
* `ParseTree.text_of_inOrder`: the texts of its tokens and of its nodes are slices of this text.
-/

namespace SpacedNames

open Text

/-- The text between two tokens is never missing for want of tokens. -/
theorem textBetween_ne_emptyNode (first last : Token) (kind : String) :
    textBetween first last ≠ .error (.emptyNode kind) := by
  by_cases hid : first.source.id = last.source.id
  · exact (Source.answers_textBetween hid).ne_error (by simp) (by simp)
  · rw [Source.textBetween_eq_foreignSource_iff.mpr hid]
    simp

namespace ParseTree

variable {tree other : ParseTree} {first last : Token}

/-- **Several trees are collected one after the other.** -/
theorem toList_foldl_collect (acc : Array Token) (trees : List ParseTree) :
    (trees.foldl collect acc).toList = acc.toList ++ trees.flatMap tokens := by
  induction trees generalizing acc with
  | nil => simp
  | cons t rest ih =>
    rw [List.foldl_cons, ih, toList_collect, List.flatMap_cons, List.append_assoc]

/-! ## Trees without tokens -/

theorem text_of_tokens_eq_nil (h : tree.tokens = []) :
    tree.text = .error (.emptyNode tree.kind) := by
  rw [text, firstToken_eq, h]
  rfl

theorem extent_of_tokens_eq_nil (h : tree.tokens = []) : tree.extent = none := by
  rw [extent, firstToken_eq, h]
  rfl

/-! ## Trees with tokens -/

/-- A tree that has tokens has a first and a last one. -/
theorem exists_ends (h : tree.tokens ≠ []) :
    ∃ first last, tree.tokens.head? = some first ∧ tree.tokens.getLast? = some last :=
  ⟨_, _, List.head?_eq_some_head h, List.getLast?_eq_some_getLast h⟩

theorem extent_eq_cover (hf : tree.tokens.head? = some first)
    (hl : tree.tokens.getLast? = some last) :
    tree.extent = some (first.extent.cover last.extent) := by
  rw [extent, firstToken_eq, lastToken_eq, hf, hl]

/-! ## What the tokens tell -/

/-- What is asked of a tree has the answer that its tokens give. -/
structure ToldByTokens (tree : ParseTree) : Prop where
  first : tree.firstToken = tree.tokens.head?
  last : tree.lastToken = tree.tokens.getLast?
  first_eq_none_iff : tree.firstToken = none ↔ tree.tokens = []
  last_eq_none_iff : tree.lastToken = none ↔ tree.tokens = []
  /-- Only a tree without tokens is reported by its kind. -/
  emptyNode_iff : tree.text = .error (.emptyNode tree.kind) ↔ tree.tokens = []
  extent_eq_none_iff : tree.extent = none ↔ tree.tokens = []
  text : ∀ first last, tree.tokens.head? = some first → tree.tokens.getLast? = some last →
    tree.text = textBetween first last
  extent : ∀ first last, tree.tokens.head? = some first → tree.tokens.getLast? = some last →
    tree.extent = some (first.extent.cover last.extent)

theorem toldByTokens (tree : ParseTree) : tree.ToldByTokens where
  first := tree.firstToken_eq
  last := tree.lastToken_eq
  first_eq_none_iff := by rw [firstToken_eq, List.head?_eq_none_iff]
  last_eq_none_iff := by rw [lastToken_eq, List.getLast?_eq_none_iff]
  emptyNode_iff := by
    by_cases hne : tree.tokens = []
    · exact iff_of_true (text_of_tokens_eq_nil hne) hne
    · obtain ⟨first, last, hf, hl⟩ := exists_ends hne
      rw [text_eq_textBetween hf hl]
      exact iff_of_false (textBetween_ne_emptyNode first last tree.kind) hne
  extent_eq_none_iff := by
    by_cases hne : tree.tokens = []
    · exact iff_of_true (extent_of_tokens_eq_nil hne) hne
    · obtain ⟨first, last, hf, hl⟩ := exists_ends hne
      rw [extent_eq_cover hf hl]
      exact iff_of_false (by simp) hne
  text _ _ := text_eq_textBetween
  extent _ _ := extent_eq_cover

theorem extent_congr (h : other.tokens = tree.tokens) : other.extent = tree.extent := by
  by_cases hne : tree.tokens = []
  · rw [extent_of_tokens_eq_nil hne, extent_of_tokens_eq_nil (h.trans hne)]
  · obtain ⟨first, last, hf, hl⟩ := exists_ends hne
    rw [extent_eq_cover hf hl, extent_eq_cover (h ▸ hf) (h ▸ hl)]

/-- However the same tokens are grouped, they give the same text. Where there are none, the kind of the
node tells the trees apart. -/
theorem text_eq_text_iff (h : other.tokens = tree.tokens) :
    other.text = tree.text ↔ tree.tokens ≠ [] ∨ other.kind = tree.kind := by
  by_cases hne : tree.tokens = []
  · rw [text_of_tokens_eq_nil hne, text_of_tokens_eq_nil (h.trans hne), Except.error.injEq,
      CutFault.emptyNode.injEq, or_iff_right (not_not_intro hne)]
  · obtain ⟨first, last, hf, hl⟩ := exists_ends hne
    rw [text_eq_textBetween hf hl, text_eq_textBetween (h ▸ hf) (h ▸ hl)]
    exact iff_of_true rfl (.inl hne)

/-- **The tokens of a tree tell all that is asked of it.** A terminal has its own token, whatever stands
below it, and a branch has those of its children in order. The first and the last token of the tree are
the ends of this list, and the text and the extent depend on nothing else: trees with the same tokens
have one extent and one text, but where there are no tokens each names its own kind. -/
theorem tokens_tell (tree : ParseTree) :
    (∀ kind t children, (node kind (some t) children).tokens = [t]) ∧
    (∀ kind children, (node kind none children).tokens = children.flatMap tokens) ∧
    (∀ acc, (collect acc tree).toList = acc.toList ++ tree.tokens) ∧
    (∀ acc (trees : List ParseTree),
      (trees.foldl collect acc).toList = acc.toList ++ trees.flatMap tokens) ∧
    tree.ToldByTokens ∧
    ∀ other : ParseTree, other.tokens = tree.tokens →
      other.extent = tree.extent ∧
      (other.text = tree.text ↔ tree.tokens ≠ [] ∨ other.kind = tree.kind) :=
  ⟨tokens_terminal, tokens_branch, fun acc => toList_collect acc tree, toList_foldl_collect,
    tree.toldByTokens, fun _ h => ⟨extent_congr h, text_eq_text_iff h⟩⟩

/-- Branches without tokens and nodes below a terminal change nothing. -/
theorem tokens_tell_regrouped :
    let src : Source := ⟨0, "a + b"⟩
    let a : Token := ⟨"a", ⟨0, 1⟩, src⟩
    let b : Token := ⟨"b", ⟨4, 5⟩, src⟩
    let flat := ofTokens "sum" [a, b]
    let nested := branch "sum" [branch "none" [], branch "term" [node "name" (some a) [terminal b]],
      branch "term" [terminal b, branch "none" []]]
    nested.tokens = flat.tokens ∧ nested.extent = flat.extent ∧ nested.text = flat.text := by
  intro src a b flat nested
  have htokens : nested.tokens = flat.tokens := by decide +kernel
  have hne : flat.tokens ≠ [] := by decide +kernel
  obtain ⟨-, -, -, -, -, hsame⟩ := tokens_tell flat
  obtain ⟨hextent, htext⟩ := hsame nested htokens
  exact ⟨htokens, hextent, htext.mpr (.inl hne)⟩

end ParseTree

/-! ## Tokens in order -/

variable {src : Source} {first last : Token} {ts : List Token}

/-- No token starts before the end of the one in front of it. -/
def InOrder (ts : List Token) : Prop :=
  ts.IsChain fun t u => t.extent.stop ≤ u.extent.start

/-- **Tokens in order stand between the first and the last of them.** -/
theorem InOrder.bounds (h : InOrder ts) (hle : ∀ t ∈ ts, t.extent.start ≤ t.extent.stop)
    (hf : ts.head? = some first) (hl : ts.getLast? = some last) :
    ∀ t ∈ ts, first.extent.start ≤ t.extent.start ∧ t.extent.stop ≤ last.extent.stop := by
  induction ts generalizing first with
  | nil => cases hf
  | cons t rest ih =>
    obtain rfl := Option.some.inj hf
    have htle := hle t List.mem_cons_self
    cases rest with
    | nil =>
      obtain rfl := Option.some.inj hl
      intro v hv
      obtain rfl := List.mem_singleton.mp hv
      exact ⟨Nat.le_refl _, Nat.le_refl _⟩
    | cons u rest =>
      obtain ⟨htu, hrest⟩ := List.isChain_cons_cons.mp h
      rw [List.getLast?_cons_cons] at hl
      have hbounds := ih hrest (fun v hv => hle v (List.mem_cons_of_mem t hv)) rfl hl
      have hule := hle u (List.mem_cons_of_mem t List.mem_cons_self)
      have hu := (hbounds u List.mem_cons_self).2
      intro v hv
      rcases List.mem_cons.mp hv with rfl | hv
      · exact ⟨Nat.le_refl _, by omega⟩
      · obtain ⟨hstart, hstop⟩ := hbounds v hv
        exact ⟨by omega, hstop⟩

/-- Tokens in order are covered by the extent from the first to the last. -/
theorem InOrder.cover_eq (h : InOrder ts) (hle : ∀ t ∈ ts, t.extent.start ≤ t.extent.stop)
    (hf : ts.head? = some first) (hl : ts.getLast? = some last) :
    first.extent.cover last.extent = ⟨first.extent.start, last.extent.stop⟩ := by
  have hbounds := h.bounds hle hf hl
  have hstart := (hbounds last (List.mem_of_getLast? hl)).1
  have hstop := (hbounds first (List.mem_of_head? hf)).2
  rw [Extent.cover, Nat.min_eq_left hstart, Nat.max_eq_right hstop]

theorem Source.Makes.start_le_stop {t : Token} (h : src.Makes t) :
    t.extent.start ≤ t.extent.stop :=
  (makes_iff.mp h).2.isRange.start_le_stop

namespace ParseTree

variable {tree part : ParseTree}

/-! ## Parts of a tree -/

/-- The tree itself, and the nodes below it. A terminal has no part but itself: its token stands for all
of it. -/
inductive HasPart : ParseTree → ParseTree → Prop
  | self (tree : ParseTree) : HasPart tree tree
  | child {kind : String} {children : List ParseTree} {c part : ParseTree}
      (hc : c ∈ children) (h : HasPart c part) : HasPart (node kind none children) part

/-- **The tokens of a part are neighbours in the whole tree.** -/
theorem HasPart.tokens_infix (h : tree.HasPart part) : part.tokens <:+: tree.tokens := by
  induction h with
  | self => exact List.infix_rfl
  | @child kind children c part hc _ ih =>
    obtain ⟨front, back, rfl⟩ := List.append_of_mem hc
    rw [tokens_branch, List.flatMap_append, List.flatMap_cons]
    exact ih.trans (List.infix_append' _ _ _)

/-! ## Texts -/

/-- **A tree in order has the text of its extent**, from its first token to its last. -/
theorem exists_reads (hmade : ∀ t ∈ tree.tokens, src.Makes t) (horder : InOrder tree.tokens)
    (hf : tree.tokens.head? = some first) (hl : tree.tokens.getLast? = some last) :
    ∃ text, tree.text = .ok text ∧
      tree.extent = some ⟨first.extent.start, last.extent.stop⟩ ∧
      Reads src.text first.extent.start last.extent.stop text := by
  have hle : ∀ t ∈ tree.tokens, t.extent.start ≤ t.extent.stop :=
    fun t ht => (hmade t ht).start_le_stop
  have hfirst := List.mem_of_head? hf
  have hlast := List.mem_of_getLast? hl
  have hstart : first.extent.start ≤ last.extent.stop :=
    Nat.le_trans (hle first hfirst) (horder.bounds hle hf hl first hfirst).2
  obtain ⟨text, htext, hreads⟩ := (hmade first hfirst).reads_textBetween (hmade last hlast) hstart
  refine ⟨text, ?_, ?_, hreads⟩
  · rw [text_eq_textBetween hf hl, htext]
  · rw [extent_eq_cover hf hl, horder.cover_eq hle hf hl]

/-- A part of a tree in order has a text of its own, which stands within the text of the tree. -/
theorem HasPart.exists_reads (h : tree.HasPart part) (hmade : ∀ t ∈ tree.tokens, src.Makes t)
    (horder : InOrder tree.tokens) (hf : tree.tokens.head? = some first)
    (hl : tree.tokens.getLast? = some last) (hne : part.tokens ≠ []) :
    ∃ text extent, part.text = .ok text ∧ part.extent = some extent ∧
      first.extent.start ≤ extent.start ∧ extent.stop ≤ last.extent.stop ∧
      Reads src.text extent.start extent.stop text := by
  have hwithin := h.tokens_infix
  have hmem : ∀ t ∈ part.tokens, t ∈ tree.tokens := fun t ht => hwithin.subset ht
  have horderPart : InOrder part.tokens := List.IsChain.infix horder hwithin
  have hbounds := horder.bounds (fun t ht => (hmade t ht).start_le_stop) hf hl
  have hhead := List.head?_eq_some_head hne
  have hback := List.getLast?_eq_some_getLast hne
  obtain ⟨text, htext, hextent, hreads⟩ :=
    ParseTree.exists_reads (fun t ht => hmade t (hmem t ht)) horderPart hhead hback
  refine ⟨text, _, htext, hextent, ?_, ?_, hreads⟩
  · exact (hbounds _ (hmem _ (List.head_mem hne))).1
  · exact (hbounds _ (hmem _ (List.getLast_mem hne))).2

/-- **Texts nest as trees do.** A tree over tokens of one source, in document order, has the text of the
source at its extent, which goes from the start of its first token to the end of its last. Each of its
tokens stands inside of this extent, and so does each of its nodes that has tokens. The text of the one
and of the other is the slice of the whole text that its own extent tells, counted from the first
token. -/
theorem text_of_inOrder (hmade : ∀ t ∈ tree.tokens, src.Makes t) (horder : InOrder tree.tokens)
    (hf : tree.tokens.head? = some first) (hl : tree.tokens.getLast? = some last) :
    ∃ whole, tree.text = .ok whole ∧
      tree.extent = some ⟨first.extent.start, last.extent.stop⟩ ∧
      Reads src.text first.extent.start last.extent.stop whole ∧
      (∀ t ∈ tree.tokens,
        first.extent.start ≤ t.extent.start ∧ t.extent.stop ≤ last.extent.stop ∧
        Reads whole (t.extent.start - first.extent.start) (t.extent.stop - first.extent.start)
          t.text) ∧
      ∀ part, tree.HasPart part → part.tokens ≠ [] →
        ∃ text extent, part.text = .ok text ∧ part.extent = some extent ∧
          first.extent.start ≤ extent.start ∧ extent.stop ≤ last.extent.stop ∧
          Reads whole (extent.start - first.extent.start) (extent.stop - first.extent.start)
            text := by
  obtain ⟨whole, hwhole, hextent, hreads⟩ := exists_reads hmade horder hf hl
  have hbounds := horder.bounds (fun t ht => (hmade t ht).start_le_stop) hf hl
  refine ⟨whole, hwhole, hextent, hreads, fun t ht => ?_, fun part hp hne => ?_⟩
  · obtain ⟨hstart, hstop⟩ := hbounds t ht
    exact ⟨hstart, hstop, (Source.makes_iff.mp (hmade t ht)).2.within hreads hstart hstop⟩
  · obtain ⟨text, extent, htext, hpart, hstart, hstop, hinner⟩ :=
      hp.exists_reads hmade horder hf hl hne
    exact ⟨text, extent, htext, hpart, hstart, hstop, hinner.within hreads hstart hstop⟩

/-- Words under nested branches, one of them empty. -/
theorem text_of_inOrder_nested :
    let src : Source := ⟨0, "let  à\tb\n c = 3"⟩
    let a : Token := ⟨"à", ⟨5, 7⟩, src⟩
    let b : Token := ⟨"b", ⟨8, 9⟩, src⟩
    let c : Token := ⟨"c", ⟨11, 12⟩, src⟩
    let rest := ofTokens "rest" [b, c]
    let tree := branch "name" [branch "none" [], branch "word" [terminal a], rest]
    (∀ t ∈ tree.tokens, src.Makes t) ∧ InOrder tree.tokens ∧
    tree.tokens.head? = some a ∧ tree.tokens.getLast? = some c ∧
    tree.HasPart rest ∧ rest.tokens ≠ [] ∧
    ∃ whole, tree.text = .ok whole ∧ Reads src.text 5 12 whole ∧ Reads whole 3 4 "b" ∧
      ∃ text extent, rest.text = .ok text ∧ rest.extent = some extent ∧
        Reads whole (extent.start - 5) (extent.stop - 5) text := by
  intro src a b c rest tree
  have hmade : ∀ t ∈ tree.tokens, src.Makes t := by
    have hwords : ∀ t ∈ tree.tokens, t ∈ src.splitWords := by decide +kernel
    exact fun t ht => .inr (hwords t ht)
  have horder : InOrder tree.tokens := by
    have htokens : tree.tokens = [a, b, c] := by decide +kernel
    rw [htokens]
    exact .cons_cons (by decide) (.cons_cons (by decide) (.singleton c))
  have hf : tree.tokens.head? = some a := by decide +kernel
  have hl : tree.tokens.getLast? = some c := by decide +kernel
  have hpart : tree.HasPart rest := .child (by simp) (.self rest)
  have hne : rest.tokens ≠ [] := by decide +kernel
  have hb : b ∈ tree.tokens := by decide +kernel
  obtain ⟨whole, htext, -, hreads, htokens, hparts⟩ := text_of_inOrder hmade horder hf hl
  obtain ⟨text, extent, hrest, hextent, -, -, hinner⟩ := hparts rest hpart hne
  exact ⟨hmade, horder, hf, hl, hpart, hne, whole, htext, hreads, (htokens b hb).2.2, text, extent,
    hrest, hextent, hinner⟩

end ParseTree

end SpacedNames
