import SpacedNames.Proofs.Source.Words
import SpacedNames.Source.Outline

/-!
# Texts that are cut out of a source

A caller asks for a token between two offsets, or for the text from one token to another. Tokens that a
source made hold the text that stands at their extent; any other token may name any offsets.

* `ParseTree.firstToken_eq`, `lastToken_eq`: the two searches find the ends of the list of tokens,
  past branches without tokens and without building the list.
* `exists_textBetween_of_infix`: from one word of a source to a later one there is a text, and its words
  are those from the first to the last. `ParseTree.text_of_infix`: so a tree over neighbouring words has
  a text, however it is nested.
* `Source.Cuts.moved`: the words of a text are the same wherever it stands, each as far from the front
  of the text. `splitWords_textBetween`: the text from one word to a later one has just the words
  between them.
* `Source.Answers`: how a question for the text between two offsets is answered. There is a text exactly
  if the offsets are a range, and if not, the first cause that applies is told.
* `Source.answers_cut`, `answers_textBetween`: both questions are answered so.
* `Source.Makes`: a token that the source made. `makes_iff`: it holds the text at its extent.
  `Makes.reads_textBetween`: from one to another there is a text unless the other ends too early.
* `cut_textBetween`: all of this together.
-/

namespace SpacedNames

open Text

/-! ## The ends of a tree -/

namespace ParseTree

theorem tokens_terminal (kind : String) (t : Token) (children : List ParseTree) :
    (node kind (some t) children).tokens = [t] := by
  rw [tokens, collect]
  rfl

theorem tokens_branch (kind : String) (children : List ParseTree) :
    (node kind none children).tokens = children.flatMap tokens := by
  rw [tokens, collect, toList_collectAll]
  rfl

mutual

theorem firstToken_eq : ∀ t : ParseTree, t.firstToken = t.tokens.head?
  | node kind (some t) children => by
    rw [firstToken, tokens_terminal]
    rfl
  | node kind none children => by
    rw [firstToken, tokens_branch, firstTokenOf_eq children]

theorem firstTokenOf_eq : ∀ ts : List ParseTree, firstTokenOf ts = (ts.flatMap tokens).head?
  | [] => by
    rw [firstTokenOf]
    rfl
  | t :: ts => by
    rw [firstTokenOf, firstToken_eq t, firstTokenOf_eq ts, List.flatMap_cons, List.head?_append]
    cases t.tokens.head? <;> rfl

end

mutual

theorem lastToken_eq : ∀ t : ParseTree, t.lastToken = t.tokens.getLast?
  | node kind (some t) children => by
    rw [lastToken, tokens_terminal]
    rfl
  | node kind none children => by
    rw [lastToken, tokens_branch, lastTokenOf_eq children]

theorem lastTokenOf_eq : ∀ ts : List ParseTree, lastTokenOf ts = (ts.flatMap tokens).getLast?
  | [] => by
    rw [lastTokenOf]
    rfl
  | t :: ts => by
    rw [lastTokenOf, lastToken_eq t, lastTokenOf_eq ts, List.flatMap_cons, List.getLast?_append]
    cases (ts.flatMap tokens).getLast? <;> rfl

end

/-- Of a tree only its first and its last token count for the text. -/
theorem text_eq_textBetween {tree : ParseTree} {first last : Token}
    (hf : tree.tokens.head? = some first) (hl : tree.tokens.getLast? = some last) :
    tree.text = textBetween first last := by
  rw [text, firstToken_eq, lastToken_eq, hf, hl]

end ParseTree

/-! ## Neighbouring words -/

section Neighbours

variable {src : Source} {first last : Token}

/-- **From one word to a later one there is a text**, the slice of the source from the start of the
first to the end of the last. It is cut into just these words. -/
theorem exists_textBetween_of_infix {ts : List Token} (h : ts <:+: src.splitWords)
    (hf : ts.head? = some first) (hl : ts.getLast? = some last) :
    ∃ body, textBetween first last = .ok (String.ofList body) ∧
      src.slice? first.extent.start last.extent.stop = some (String.ofList body) ∧
      src.Cuts first.extent.start body ts := by
  obtain ⟨before, body, after, htext, hstart, hstop, hbody⟩ := Source.exists_body_of_infix h hf hl
  have hfirst : first.source = src := hbody.source_eq first (List.mem_of_head? hf)
  have hlast : last.source = src := hbody.source_eq last (List.mem_of_getLast? hl)
  have hslice : src.slice? first.extent.start last.extent.stop = some (String.ofList body) := by
    rw [hstart, hstop, Source.slice?_of_append htext]
  refine ⟨body, ?_, hslice, hstart ▸ hbody⟩
  rw [textBetween, hfirst, hlast, hslice]
  rw [if_neg (not_not_intro rfl), if_neg (by omega)]

/-- The words of the text between two words are those from the first to the last. -/
theorem textBetween_of_infix {ts : List Token} (h : ts <:+: src.splitWords)
    (hf : ts.head? = some first) (hl : ts.getLast? = some last) :
    ∃ text, textBetween first last = .ok text ∧
      src.slice? first.extent.start last.extent.stop = some text ∧
      words text = ts.map Token.text := by
  obtain ⟨body, htext, hslice, hbody⟩ := exists_textBetween_of_infix h hf hl
  exact ⟨String.ofList body, htext, hslice, by rw [hbody.texts_eq, words, String.toList_ofList]⟩

/-- **A tree over neighbouring words has a text**, whatever its shape. -/
theorem ParseTree.text_of_infix {tree : ParseTree} (h : tree.tokens <:+: src.splitWords)
    (hf : tree.tokens.head? = some first) (hl : tree.tokens.getLast? = some last) :
    ∃ text, tree.text = .ok text ∧
      src.slice? first.extent.start last.extent.stop = some text ∧
      words text = tree.tokens.map Token.text := by
  rw [text_eq_textBetween hf hl]
  exact textBetween_of_infix h hf hl

end Neighbours

/-! ## Slices that are sources -/

section Slices

/-- The token in a source that starts `n` bytes further on. -/
def Token.moved (t : Token) (src : Source) (n : Nat) : Token :=
  ⟨t.text, ⟨t.extent.start - n, t.extent.stop - n⟩, src⟩

variable {src : Source} {offset n : Nat} {cs : List Char} {tokens : List Token}

/-- **The words of a text do not depend on its place.** -/
theorem Source.Cuts.moved (h : src.Cuts offset cs tokens) (other : Source) (hn : n ≤ offset) :
    other.Cuts (offset - n) cs (tokens.map (·.moved other n)) := by
  induction h with
  | blank hgap => exact .blank hgap
  | @word offset gap w rest tokens hgap hw hrest _ ih =>
    have hstart : offset + byteLength gap - n = offset - n + byteLength gap := by omega
    have hstop : offset + byteLength gap + byteLength w - n =
        offset - n + byteLength gap + byteLength w := by omega
    have hnext := ih (by omega)
    rw [hstop] at hnext
    rw [List.map_cons, Token.moved, hstart, hstop]
    exact .word hgap hw hrest hnext

/-- **Cutting out and splitting commute.** From one word of a source to a later one there is a text.
Made a source, it splits into these two words and those between them: as many, with the same texts,
and each as far from the front as it is from the first word. -/
theorem splitWords_textBetween {i j : Nat} {first last : Token} (hij : i ≤ j)
    (hf : src.splitWords[i]? = some first) (hl : src.splitWords[j]? = some last) (id : Nat) :
    ∃ text, textBetween first last = .ok text ∧
      (src.wordRange i j).length = j - i + 1 ∧
      (∀ t ∈ src.wordRange i j, first.extent.start ≤ t.extent.start ∧
        t.extent.start < t.extent.stop) ∧
      (Source.mk id text).splitWords =
        (src.wordRange i j).map (·.moved ⟨id, text⟩ first.extent.start) := by
  obtain ⟨body, htext, -, hbody⟩ := exists_textBetween_of_infix (src.wordRange_infix i j)
    (Source.head?_wordRange hij hf) (Source.getLast?_wordRange hij hl)
  refine ⟨String.ofList body, htext, Source.length_wordRange hij hl, fun t ht => ?_, ?_⟩
  · obtain ⟨hle, hlt, -⟩ := hbody.bounds ht
    exact ⟨hle, hlt⟩
  · have hmoved := hbody.moved ⟨id, String.ofList body⟩ (Nat.le_refl _)
    have hsplit := (Source.mk id (String.ofList body)).splitWords_cuts
    rw [Nat.sub_self] at hmoved
    rw [String.toList_ofList] at hsplit
    exact hsplit.unique hmoved

/-- The blanks around the words stay outside, those between them inside. -/
theorem splitWords_textBetween_wide :
    let src : Source := ⟨0, " à\u3000b  c d"⟩
    0 ≤ 2 ∧ src.splitWords[0]? = some ⟨"à", ⟨1, 3⟩, src⟩ ∧
    src.splitWords[2]? = some ⟨"c", ⟨9, 10⟩, src⟩ ∧
    ∃ text, textBetween ⟨"à", ⟨1, 3⟩, src⟩ ⟨"c", ⟨9, 10⟩, src⟩ = .ok text ∧
      (Source.mk 1 text).splitWords =
        (src.wordRange 0 2).map (·.moved ⟨1, text⟩ 1) := by
  intro src
  have hf : src.splitWords[0]? = some ⟨"à", ⟨1, 3⟩, src⟩ := by decide +kernel
  have hl : src.splitWords[2]? = some ⟨"c", ⟨9, 10⟩, src⟩ := by decide +kernel
  obtain ⟨text, htext, -, -, hwords⟩ := splitWords_textBetween (by decide : 0 ≤ 2) hf hl 1
  exact ⟨by decide, hf, hl, text, htext, hwords⟩

end Slices

/-! ## The text between two offsets -/

namespace Source

variable {src : Source} {start stop : Nat} {t u : Token}

theorem slice?_eq_some_iff {text : String} :
    src.slice? start stop = some text ↔ Reads src.text start stop text := by
  rw [← Text.slice?_eq_some_iff, slice?, Option.map_eq_some_iff]
  constructor
  · rintro ⟨cs, hcs, rfl⟩
    rw [hcs, String.toList_ofList]
  · intro h
    exact ⟨text.toList, h, String.ofList_toList⟩

theorem slice?_eq_none_iff : src.slice? start stop = none ↔ ¬ IsRange src.text start stop := by
  rw [Option.eq_none_iff_forall_ne_some]
  constructor
  · intro h hrange
    obtain ⟨text, htext⟩ := hrange.exists_reads
    exact h text (slice?_eq_some_iff.mpr htext)
  · intro h text htext
    exact h (slice?_eq_some_iff.mp htext).isRange

/-- How a question for the text between two offsets is answered. Each answer is given in its own case
and in no other. -/
structure Answers (src : Source) (start stop : Nat) (answer : Except CutFault String) : Prop where
  isOk_iff : (∃ text, answer = .ok text) ↔ IsRange src.text start stop
  /-- The text has the bytes of the range. -/
  ok_iff : ∀ text, answer = .ok text ↔ Reads src.text start stop text
  inverted_iff : answer = .error (.inverted start stop) ↔ stop < start
  outOfBounds_iff : answer = .error (.outOfBounds start stop src.length) ↔
    start ≤ stop ∧ ¬ IsRange src.text start stop

/-- There is no other answer. -/
theorem Answers.ne_error {answer : Except CutFault String} {fault : CutFault}
    (h : src.Answers start stop answer) (hi : fault ≠ .inverted start stop)
    (ho : fault ≠ .outOfBounds start stop src.length) : answer ≠ .error fault := by
  rintro rfl
  by_cases hrange : IsRange src.text start stop
  · obtain ⟨text, htext⟩ := h.isOk_iff.mpr hrange
    cases htext
  · rcases Nat.lt_or_ge stop start with hlt | hle
    · exact hi (Except.error.inj (h.inverted_iff.mpr hlt))
    · exact ho (Except.error.inj (h.outOfBounds_iff.mpr ⟨hle, hrange⟩))

/-- A source is asked for the order of the offsets first, and for a slice then. -/
theorem answers_slice? (src : Source) (start stop : Nat) :
    src.Answers start stop
      (if stop < start then .error (.inverted start stop)
      else match src.slice? start stop with
        | some text => .ok text
        | none => .error (.outOfBounds start stop src.length)) := by
  by_cases hlt : stop < start
  · rw [if_pos hlt]
    have hno : ¬ IsRange src.text start stop := fun h => Nat.not_le_of_lt hlt h.start_le_stop
    refine ⟨?_, fun text => ?_, iff_of_true rfl hlt, ?_⟩
    · exact iff_of_false (by simp) hno
    · exact iff_of_false (by simp) fun h => hno h.isRange
    · exact iff_of_false (by simp) fun h => Nat.not_le_of_lt hlt h.1
  · rw [if_neg hlt]
    cases hs : src.slice? start stop with
    | none =>
      have hno := slice?_eq_none_iff.mp hs
      refine ⟨iff_of_false (by simp) hno, fun text => ?_, iff_of_false (by simp) hlt, ?_⟩
      · exact iff_of_false (by simp) fun h => hno h.isRange
      · exact iff_of_true rfl ⟨Nat.le_of_not_lt hlt, hno⟩
    | some part =>
      have hreads := slice?_eq_some_iff.mp hs
      refine ⟨iff_of_true ⟨part, rfl⟩ hreads.isRange, fun text => ?_, iff_of_false (by simp) hlt, ?_⟩
      · rw [Except.ok.injEq]
        exact ⟨fun h => h ▸ hreads, fun h => hreads.unique h⟩
      · exact iff_of_false (by simp) fun h => h.2 hreads.isRange

/-- **The token between two offsets**, or why there is none. -/
theorem answers_cut (src : Source) (start stop : Nat) :
    src.Answers start stop ((src.cut start stop).map Token.text) := by
  have h := src.answers_slice? start stop
  unfold cut
  split
  · rename_i hlt
    rw [if_pos hlt] at h
    exact h
  · rename_i hlt
    rw [if_neg hlt] at h
    cases hs : src.slice? start stop <;> rw [hs] at h <;> exact h

/-- A token that was cut names the offsets and its source, and has the text between them. -/
theorem cut_eq_ok_iff : src.cut start stop = .ok t ↔
    t.source = src ∧ t.extent = ⟨start, stop⟩ ∧ Reads src.text start stop t.text := by
  rw [← slice?_eq_some_iff]
  constructor
  · intro h
    unfold cut at h
    split at h
    · cases h
    · split at h
      · cases h
        exact ⟨rfl, rfl, ‹_›⟩
      · cases h
  · rintro ⟨hsrc, hextent, hs⟩
    obtain ⟨text, extent, source⟩ := t
    simp only at hsrc hextent hs
    subst hsrc hextent
    have hle := (slice?_eq_some_iff.mp hs).isRange.start_le_stop
    rw [cut, if_neg (Nat.not_lt_of_le hle), hs]

/-- **The text from one token to another of the same source**, whatever offsets they name. -/
theorem answers_textBetween {first last : Token} (h : first.source.id = last.source.id) :
    first.source.Answers first.extent.start last.extent.stop (textBetween first last) := by
  have h' : ¬ first.source.id ≠ last.source.id := not_not_intro h
  unfold textBetween
  rw [if_neg h']
  exact first.source.answers_slice? first.extent.start last.extent.stop

/-- Tokens of two sources are told apart before anything else is asked. -/
theorem textBetween_eq_foreignSource_iff {first last : Token} :
    textBetween first last = .error (.foreignSource first.extent last.extent) ↔
      first.source.id ≠ last.source.id := by
  constructor
  · intro h hid
    exact (answers_textBetween hid).ne_error (by simp) (by simp) h
  · intro h
    rw [textBetween, if_pos h]

/-! ## Tokens that a source made -/

/-- The source made the token, by a cut or as one of its words. -/
def Makes (src : Source) (t : Token) : Prop :=
  (∃ start stop, src.cut start stop = .ok t) ∨ t ∈ src.splitWords

/-- **A token that a source made** holds the text that stands at its extent, and the source makes all
tokens that do. -/
theorem makes_iff :
    src.Makes t ↔ t.source = src ∧ Reads src.text t.extent.start t.extent.stop t.text := by
  constructor
  · rintro (⟨start, stop, h⟩ | h)
    · obtain ⟨hsrc, hextent, hreads⟩ := cut_eq_ok_iff.mp h
      rw [hextent]
      exact ⟨hsrc, hreads⟩
    · obtain ⟨hsrc, -, hreads⟩ := cut_eq_ok_iff.mp (mem_splitWords_iff.mp h).holds.cut_eq
      exact ⟨hsrc, hreads⟩
  · rintro ⟨hsrc, hreads⟩
    exact .inl ⟨_, _, cut_eq_ok_iff.mpr ⟨hsrc, rfl, hreads⟩⟩

/-- From a token to another one that does not end before the first starts there is a range. -/
theorem Makes.isRange (ht : src.Makes t) (hu : src.Makes u)
    (hle : t.extent.start ≤ u.extent.stop) : IsRange src.text t.extent.start u.extent.stop :=
  (makes_iff.mp ht).2.isRange.join (makes_iff.mp hu).2.isRange hle

/-- Between two tokens of one source the question is answered by that source. -/
theorem Makes.answers (ht : src.Makes t) (hu : src.Makes u) :
    src.Answers t.extent.start u.extent.stop (textBetween t u) := by
  obtain ⟨hts, -⟩ := makes_iff.mp ht
  obtain ⟨hus, -⟩ := makes_iff.mp hu
  have hid : t.source.id = u.source.id := by rw [hts, hus]
  have h := answers_textBetween hid
  rw [hts] at h
  exact h

/-- **From one token of a source to another there is a text**, unless the other ends before the first
starts. -/
theorem Makes.reads_textBetween (ht : src.Makes t) (hu : src.Makes u)
    (hle : t.extent.start ≤ u.extent.stop) :
    ∃ text, textBetween t u = .ok text ∧ Reads src.text t.extent.start u.extent.stop text := by
  obtain ⟨text, htext⟩ := (ht.answers hu).isOk_iff.mpr (ht.isRange hu hle)
  exact ⟨text, htext, ((ht.answers hu).ok_iff text).mp htext⟩

/-- From a token to itself there is its text. -/
theorem Makes.textBetween_self (ht : src.Makes t) : textBetween t t = .ok t.text :=
  ((ht.answers ht).ok_iff t.text).mpr (makes_iff.mp ht).2

end Source

/-- **Which texts there are between offsets, and why there is none.** A source makes a token exactly at
a range. Any two tokens have a text between them exactly if they name one source and the range is one of
it; the sources are compared first, the order of the offsets next. Of two tokens that one source made
only the order can be wrong, and from a token to itself there is its own text. -/
theorem cut_textBetween (src : Source) :
    (∀ start stop, src.Answers start stop ((src.cut start stop).map Token.text) ∧
      ∀ t, src.cut start stop = .ok t ↔
        t.source = src ∧ t.extent = ⟨start, stop⟩ ∧ Reads src.text start stop t.text) ∧
    (∀ first last : Token,
      (textBetween first last = .error (.foreignSource first.extent last.extent) ↔
        first.source.id ≠ last.source.id) ∧
      (first.source.id = last.source.id →
        first.source.Answers first.extent.start last.extent.stop (textBetween first last))) ∧
    ∀ t u, src.Makes t → src.Makes u →
      (u.extent.stop < t.extent.start →
        textBetween t u = .error (.inverted t.extent.start u.extent.stop)) ∧
      (t.extent.start ≤ u.extent.stop →
        ∃ text, textBetween t u = .ok text ∧
          Reads src.text t.extent.start u.extent.stop text) ∧
      textBetween t t = .ok t.text := by
  refine ⟨fun start stop => ⟨src.answers_cut start stop, fun t => Source.cut_eq_ok_iff⟩,
    fun first last => ⟨Source.textBetween_eq_foreignSource_iff, Source.answers_textBetween⟩,
    fun t u ht hu => ⟨fun hlt => ?_, ht.reads_textBetween hu, ht.textBetween_self⟩⟩
  exact (ht.answers hu).inverted_iff.mpr hlt

/-- Two tokens that overlap, in either order, two in the wrong order, and one that tears a character. -/
theorem cut_textBetween_wide :
    let src : Source := ⟨0, "à\u3000bc"⟩
    let word : Token := ⟨"bc", ⟨5, 7⟩, src⟩
    let front : Token := ⟨"à\u3000b", ⟨0, 6⟩, src⟩
    let letter : Token := ⟨"à", ⟨0, 2⟩, src⟩
    let torn : Token := ⟨"", ⟨1, 3⟩, src⟩
    src.Makes word ∧ src.Makes front ∧ src.Makes letter ∧
    (word.extent.start ≤ front.extent.stop ∧
      ∃ text, textBetween word front = .ok text ∧ Reads src.text 5 6 text) ∧
    (front.extent.start ≤ word.extent.stop ∧
      ∃ text, textBetween front word = .ok text ∧ Reads src.text 0 7 text) ∧
    (letter.extent.stop < word.extent.start ∧
      textBetween word letter = .error (.inverted 5 2)) ∧
    textBetween word word = .ok "bc" ∧
    torn.source.id = front.source.id ∧
      textBetween torn front = .error (.outOfBounds 1 6 src.length) := by
  intro src word front letter torn
  have hword : src.Makes word := .inr (by decide +kernel)
  have hfront : src.Makes front :=
    Source.makes_iff.mpr ⟨rfl, Text.slice?_eq_some_iff.mp (by decide +kernel)⟩
  have hletter : src.Makes letter :=
    Source.makes_iff.mpr ⟨rfl, Text.slice?_eq_some_iff.mp (by decide +kernel)⟩
  have htorn : ¬ IsRange src.text 1 6 := Source.slice?_eq_none_iff.mp (by decide +kernel)
  obtain ⟨-, hany, hmade⟩ := cut_textBetween src
  obtain ⟨-, hback, hself⟩ := hmade word front hword hfront
  obtain ⟨-, hforth, -⟩ := hmade front word hfront hword
  obtain ⟨hinverted, -⟩ := hmade word letter hword hletter
  have hcause := ((hany torn front).2 rfl).outOfBounds_iff
  exact ⟨hword, hfront, hletter, ⟨by decide, hback (by decide)⟩, ⟨by decide, hforth (by decide)⟩,
    ⟨by decide, hinverted (by decide)⟩, hself, rfl, hcause.mpr ⟨by decide, htorn⟩⟩

end SpacedNames
