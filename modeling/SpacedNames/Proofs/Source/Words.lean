import SpacedNames.Proofs.Text.Ranges
import SpacedNames.Proofs.Text.Words
import SpacedNames.Source.Words

/-!
# The words of a source and where they stand

The scan keeps a word in progress and counts bytes. What it comes to is told without either.

* `Source.Cuts`: tokens are the words of a text that starts at a byte offset. Each is a longest run
  of characters that are not blank, and nothing but blank characters is left out.
* `Source.splitWords_cuts`: the scan makes such tokens. `Cuts.texts_eq`: their texts are the words of
  the text.
* `Source.wordRange`: neighbouring words, by their numbers. `exists_body_of_infix`: what stands from
  the first to the last of them is cut into these words.
* `Source.Cuts.unique`: a text is cut into words in one way. `Cuts.append`: texts that meet at a blank
  character are cut apart from each other.
* `Source.IsRun`: a token that is a longest run of characters that are not blank, told by what stands
  before and behind it. `mem_splitWords_iff`: the words are all of these.
* `Source.Holds`: a token with the text that stands at its extent, which can be cut there.
* `Source.gaps`: what the words leave out. `Cuts.exists_gaps`: it is blank, and together with the words
  it is the text.
* `Source.splitWords_runs`: all of this of the words of a source.
-/

namespace SpacedNames

open Text

namespace Source

variable {src : Source} {offset : Nat} {cs : List Char} {tokens : List Token}

/-- The tokens are the words of `cs`, which starts at byte `offset` of the source. -/
inductive Cuts (src : Source) : Nat → List Char → List Token → Prop
  | blank {offset : Nat} {gap : List Char} (hgap : ∀ c ∈ gap, isBlank c = true) :
      Cuts src offset gap []
  | word {offset : Nat} {gap w rest : List Char} {tokens : List Token}
      (hgap : ∀ c ∈ gap, isBlank c = true) (hw : IsWord w)
      (hrest : ∀ c ∈ rest.head?, isBlank c = true)
      (h : Cuts src (offset + byteLength gap + byteLength w) rest tokens) :
      Cuts src offset (gap ++ (w ++ rest))
        (⟨String.ofList w, ⟨offset + byteLength gap, offset + byteLength gap + byteLength w⟩, src⟩ ::
          tokens)

/-- A gap before the text moves the text, and adds no word. -/
theorem Cuts.gap_append {gap : List Char} (hgap : ∀ c ∈ gap, isBlank c = true)
    (h : Cuts src (offset + byteLength gap) cs tokens) : Cuts src offset (gap ++ cs) tokens := by
  have hboth : ∀ {gap' : List Char}, (∀ c ∈ gap', isBlank c = true) →
      ∀ c ∈ gap ++ gap', isBlank c = true := by
    intro gap' hgap' c hc
    exact (List.mem_append.mp hc).elim (hgap c) (hgap' c)
  cases h with
  | blank hgap' => exact .blank (hboth hgap')
  | @word _ gap' w rest tokens hgap' hw hrest h =>
    have hlen : offset + byteLength (gap ++ gap') = offset + byteLength gap + byteLength gap' := by
      rw [byteLength_append, Nat.add_assoc]
    rw [← hlen] at h ⊢
    rw [← List.append_assoc]
    exact .word (hboth hgap') hw hrest h

/-- A text that starts with a word. -/
theorem Cuts.word_append {w rest : List Char} (hw : IsWord w)
    (hrest : ∀ c ∈ rest.head?, isBlank c = true)
    (h : Cuts src (offset + byteLength w) rest tokens) :
    Cuts src offset (w ++ rest)
      (⟨String.ofList w, ⟨offset, offset + byteLength w⟩, src⟩ :: tokens) :=
  @Cuts.word src offset [] w rest tokens (by simp) hw hrest h

/-! ## The scan -/

/-- **The scan cuts a text into its words**, be it between two words or inside of one. -/
theorem scanWords_cuts (src : Source) (cs : List Char) :
    (∀ offset, Cuts src offset cs (src.scanWords offset none cs)) ∧
      ∀ start run, IsWord run.reverse →
        Cuts src start (run.reverse ++ cs)
          (src.scanWords (start + byteLength run) (some (start, run)) cs) := by
  induction cs with
  | nil =>
    refine ⟨fun offset => .blank (by simp), fun start run hw => ?_⟩
    have hword : Cuts src start (run.reverse ++ []) _ := .word_append hw (by simp) (.blank (by simp))
    rw [byteLength_reverse] at hword
    exact hword
  | cons c cs ih =>
    have hgap : isBlank c = true → ∀ offset,
        Cuts src offset (c :: cs) (src.scanWords (offset + c.utf8Size) none cs) := by
      intro hc offset
      exact Cuts.gap_append (List.forall_mem_singleton.mpr hc) (ih.1 _)
    constructor
    · intro offset
      rw [scanWords]
      split
      · exact hgap ‹_› offset
      · rename_i hc
        exact ih.2 offset [c] ⟨by simp, by simpa using hc⟩
    · intro start run hw
      rw [scanWords]
      split
      · rename_i hc
        have hnext := hgap hc (start + byteLength run.reverse)
        have hword := Cuts.word_append hw (by simpa using hc) hnext
        rw [byteLength_reverse] at hword
        exact hword
      · rename_i hc
        have hlonger : IsWord (c :: run).reverse := by
          refine ⟨by simp, fun d hd => ?_⟩
          rcases List.mem_cons.mp (List.mem_reverse.mp hd) with rfl | hd
          · simpa using hc
          · exact hw.2 d (List.mem_reverse.mpr hd)
        have hword := ih.2 start (c :: run) hlonger
        rw [byteLength_cons, Nat.add_comm c.utf8Size, ← Nat.add_assoc, List.reverse_cons,
          List.append_assoc] at hword
        exact hword

theorem splitWords_cuts (src : Source) : Cuts src 0 src.text.toList src.splitWords :=
  (scanWords_cuts src src.text.toList).1 0

/-! ## What the tokens tell -/

theorem Cuts.source_eq (h : Cuts src offset cs tokens) : ∀ t ∈ tokens, t.source = src := by
  induction h with
  | blank => simp
  | word _ _ _ _ ih =>
    intro t ht
    rcases List.mem_cons.mp ht with rfl | ht
    · rfl
    · exact ih t ht

/-- The texts of the tokens are the words of the text. -/
theorem Cuts.texts_eq (h : Cuts src offset cs tokens) :
    tokens.map Token.text = (wordsOf cs).map String.ofList := by
  induction h with
  | blank hgap => rw [wordsOf_eq_nil_iff.mpr hgap]; rfl
  | word hgap hw hrest _ ih =>
    rw [wordsOf_blank_append hgap, wordsOf_word_append hw hrest, List.map_cons, List.map_cons, ih]

/-- **The scan and the words of the text agree.** -/
theorem map_text_splitWords (src : Source) : src.splitWords.map Token.text = words src.text :=
  src.splitWords_cuts.texts_eq

/-- Behind the first tokens the text goes on. -/
theorem Cuts.exists_rest {front back : List Token} (h : Cuts src offset cs (front ++ back)) :
    ∃ before rest, cs = before ++ rest ∧ Cuts src (offset + byteLength before) rest back := by
  induction front generalizing offset cs with
  | nil => exact ⟨[], cs, rfl, h⟩
  | cons t front ih =>
    rw [List.cons_append] at h
    cases h with
    | @word _ gap w rest _ _ _ _ h =>
      obtain ⟨before, rest', rfl, hrest⟩ := ih h
      refine ⟨gap ++ (w ++ before), rest', by simp only [List.append_assoc], ?_⟩
      rw [byteLength_append, byteLength_append, ← Nat.add_assoc, ← Nat.add_assoc]
      exact hrest

/-- The text from the first to the last of the first tokens is cut into these. -/
theorem Cuts.exists_body_front {front back : List Token} (h : Cuts src offset cs (front ++ back))
    {first last : Token} (hf : front.head? = some first) (hl : front.getLast? = some last) :
    ∃ gap body rest, cs = gap ++ (body ++ rest) ∧ (∀ c ∈ gap, isBlank c = true) ∧
      first.extent.start = offset + byteLength gap ∧
      last.extent.stop = offset + byteLength gap + byteLength body ∧
      Cuts src (offset + byteLength gap) body front := by
  induction front generalizing offset cs first with
  | nil => cases hf
  | cons t front ih =>
    obtain rfl := Option.some.inj hf
    rw [List.cons_append] at h
    cases h with
    | @word _ gap w rest _ hgap hw hrest h =>
      cases front with
      | nil =>
        obtain rfl := Option.some.inj hl
        refine ⟨gap, w, rest, rfl, hgap, rfl, rfl, ?_⟩
        have hword : Cuts src (offset + byteLength gap) (w ++ []) _ :=
          .word_append hw (by simp) (.blank (by simp))
        rwa [List.append_nil] at hword
      | cons second front =>
        rw [List.getLast?_cons_cons] at hl
        obtain ⟨gap', body, rest', rfl, hgap', -, hstop, hbody⟩ := ih h rfl hl
        refine ⟨gap, w ++ (gap' ++ body), rest', by simp only [List.append_assoc], hgap, rfl, ?_, ?_⟩
        · rw [hstop, byteLength_append, byteLength_append]
          omega
        · have hnext := hbody.gap_append hgap'
          refine .word_append hw (fun c hc => hrest c ?_) hnext
          rw [← List.append_assoc, List.head?_append, Option.mem_def.mp hc]
          rfl

/-- What stands between two cuts of the source. -/
theorem slice?_of_append {before body after : List Char}
    (h : src.text.toList = before ++ (body ++ after)) :
    src.slice? (byteLength before) (byteLength before + byteLength body) =
      some (String.ofList body) := by
  rw [slice?, h, slice?_append, Option.map_some]

/-! ## Neighbouring words -/

/-- The words from number `i` to number `j`, both included. The first word has number zero. -/
def wordRange (src : Source) (i j : Nat) : List Token :=
  (src.splitWords.drop i).take (j + 1 - i)

theorem wordRange_infix (src : Source) (i j : Nat) : src.wordRange i j <:+: src.splitWords :=
  (List.take_prefix _ _).isInfix.trans (List.drop_suffix _ _).isInfix

section

variable {i j : Nat} {first last : Token}

theorem head?_wordRange (hij : i ≤ j) (hf : src.splitWords[i]? = some first) :
    (src.wordRange i j).head? = some first := by
  have hpos : j + 1 - i ≠ 0 := by omega
  rw [wordRange, List.head?_take, if_neg hpos, List.head?_drop, hf]

theorem length_wordRange (hij : i ≤ j) (hl : src.splitWords[j]? = some last) :
    (src.wordRange i j).length = j - i + 1 := by
  have hj := (List.getElem?_eq_some_iff.mp hl).1
  rw [wordRange, List.length_take, List.length_drop]
  omega

theorem getLast?_wordRange (hij : i ≤ j) (hl : src.splitWords[j]? = some last) :
    (src.wordRange i j).getLast? = some last := by
  have hk : j - i < j + 1 - i := by omega
  have hadd : i + (j - i) = j := by omega
  rw [List.getLast?_eq_getElem?, length_wordRange hij hl, Nat.add_sub_cancel, wordRange,
    List.getElem?_take_of_lt hk, List.getElem?_drop, hadd, hl]

end

/-- **Neighbouring words and what stands between them.** The text from the start of the first one to
the end of the last is cut into just these words. -/
theorem exists_body_of_infix {ts : List Token} (h : ts <:+: src.splitWords)
    {first last : Token} (hf : ts.head? = some first) (hl : ts.getLast? = some last) :
    ∃ before body after, src.text.toList = before ++ (body ++ after) ∧
      first.extent.start = byteLength before ∧
      last.extent.stop = byteLength before + byteLength body ∧
      Cuts src (byteLength before) body ts := by
  obtain ⟨front, back, hs⟩ := h
  have hcuts := src.splitWords_cuts
  rw [← hs, List.append_assoc] at hcuts
  obtain ⟨before, cs, htext, hcs⟩ := hcuts.exists_rest
  obtain ⟨gap, body, rest, rfl, -, hstart, hstop, hbody⟩ := hcs.exists_body_front hf hl
  have hlen : byteLength (before ++ gap) = 0 + byteLength before + byteLength gap := by
    rw [byteLength_append, Nat.zero_add]
  refine ⟨before ++ gap, body, rest, ?_, ?_, ?_, ?_⟩
  · rw [htext, List.append_assoc]
  · rw [hlen, hstart]
  · rw [hlen, hstop]
  · rw [hlen]
    exact hbody

/-! ## One way to cut -/

variable {t : Token}

/-- A word does not start with a blank character, so something stands before it. -/
theorem ne_nil_of_head_blank {before w after : List Char} (hw : IsWord w)
    (h : ∀ c ∈ (before ++ (w ++ after)).head?, isBlank c = true) : before ≠ [] := by
  rintro rfl
  obtain ⟨c, v, rfl, hc⟩ := hw.exists_cons
  simp [hc] at h

/-- A text with a word is not blank. -/
theorem not_forall_blank {before w after : List Char} (hw : IsWord w) :
    ¬ ∀ c ∈ before ++ (w ++ after), isBlank c = true := by
  intro h
  obtain ⟨c, v, rfl, hc⟩ := hw.exists_cons
  have hblank := h c (by simp)
  rw [hc] at hblank
  cases hblank

/-- A gap, the word after it and the rest of the text are found again. -/
theorem gap_word_inj {gap w rest gap' w' rest' : List Char}
    (hgap : ∀ c ∈ gap, isBlank c = true) (hw : IsWord w)
    (hrest : ∀ c ∈ rest.head?, isBlank c = true)
    (hgap' : ∀ c ∈ gap', isBlank c = true) (hw' : IsWord w')
    (hrest' : ∀ c ∈ rest'.head?, isBlank c = true)
    (h : gap ++ (w ++ rest) = gap' ++ (w' ++ rest')) : gap = gap' ∧ w = w' ∧ rest = rest' := by
  have hstart {v more : List Char} (hv : IsWord v) : ∀ c ∈ (v ++ more).head?, isBlank c = false := by
    obtain ⟨c, v, rfl, hc⟩ := hv.exists_cons
    simpa using hc
  have hgaps := congrArg (List.takeWhile isBlank) h
  rw [takeWhile_append_of_head hgap (hstart hw), takeWhile_append_of_head hgap' (hstart hw')] at hgaps
  subst hgaps
  have hwords := List.append_cancel_left h
  have htake {v more : List Char} (hv : IsWord v) (hm : ∀ c ∈ more.head?, isBlank c = true) :
      (v ++ more).takeWhile (!isBlank ·) = v :=
    takeWhile_append_of_head (fun c hc => by simp [hv.2 c hc]) (fun c hc => by simp [hm c hc])
  have hfront := congrArg (List.takeWhile (!isBlank ·)) hwords
  rw [htake hw hrest, htake hw' hrest'] at hfront
  subst hfront
  exact ⟨rfl, rfl, List.append_cancel_left hwords⟩

/-- **A text is cut into words in one way.** -/
theorem Cuts.unique {others : List Token} (h : Cuts src offset cs tokens)
    (h' : Cuts src offset cs others) : tokens = others := by
  induction h generalizing others with
  | @blank offset gap hgap =>
    generalize hcs : gap = cs at h'
    cases h' with
    | blank => rfl
    | word _ hw => exact absurd (hcs ▸ hgap) (not_forall_blank hw)
  | @word offset gap w rest tokens hgap hw hrest _ ih =>
    generalize hcs : gap ++ (w ++ rest) = cs at h'
    cases h' with
    | blank hblank => exact absurd (hcs ▸ hblank) (not_forall_blank hw)
    | word hgap' hw' hrest' h' =>
      obtain ⟨rfl, rfl, rfl⟩ := gap_word_inj hgap hw hrest hgap' hw' hrest' hcs
      rw [ih h']

/-- **Behind a blank character the text is cut as if it started there.** -/
theorem Cuts.append {xs ys : List Char} {more : List Token} (h : Cuts src offset xs tokens)
    (hlast : ∀ c ∈ xs.getLast?, isBlank c = true) (h' : Cuts src (offset + byteLength xs) ys more) :
    Cuts src offset (xs ++ ys) (tokens ++ more) := by
  induction h with
  | blank hgap => exact h'.gap_append hgap
  | @word offset gap w rest tokens hgap hw hrest _ ih =>
    have hne : rest ≠ [] := by
      rintro rfl
      have hc := hlast (w.getLast hw.1) (by simp [List.getLast?_eq_some_getLast hw.1])
      simp [hw.2 _ (List.getLast_mem hw.1)] at hc
    obtain ⟨c, rest, rfl⟩ := List.exists_cons_of_ne_nil hne
    rw [byteLength_append, byteLength_append, ← Nat.add_assoc, ← Nat.add_assoc] at h'
    have hnext := ih (by simpa using hlast) h'
    rw [List.append_assoc, List.append_assoc]
    exact .word hgap hw (by simpa using hrest) hnext

/-! ## Longest runs -/

/-- The token is a longest run of characters that are not blank, at its place in the source. -/
def IsRun (src : Source) (t : Token) : Prop :=
  ∃ before w after, src.text.toList = before ++ (w ++ after) ∧ IsWord w ∧
    (∀ c ∈ before.getLast?, isBlank c = true) ∧ (∀ c ∈ after.head?, isBlank c = true) ∧
    t = ⟨String.ofList w, ⟨byteLength before, byteLength before + byteLength w⟩, src⟩

/-- Each token is a longest run of the text that was cut. -/
theorem Cuts.exists_run (h : Cuts src offset cs tokens) (ht : t ∈ tokens) :
    ∃ before w after, cs = before ++ (w ++ after) ∧ IsWord w ∧
      (∀ c ∈ before.getLast?, isBlank c = true) ∧ (∀ c ∈ after.head?, isBlank c = true) ∧
      t = ⟨String.ofList w,
        ⟨offset + byteLength before, offset + byteLength before + byteLength w⟩, src⟩ := by
  induction h with
  | blank => cases ht
  | @word offset gap w rest tokens hgap hw hrest _ ih =>
    rcases List.mem_cons.mp ht with rfl | ht
    · exact ⟨gap, w, rest, rfl, hw, fun c hc => hgap c (List.mem_of_getLast? hc), hrest, rfl⟩
    · obtain ⟨before, v, after, rfl, hv, hbefore, hafter, rfl⟩ := ih ht
      -- The next word does not touch this one, so the character before it is still the same.
      have hne := ne_nil_of_head_blank hv hrest
      refine ⟨gap ++ (w ++ before), v, after, by simp only [List.append_assoc], hv, ?_, hafter, ?_⟩
      · simpa [hne] using hbefore
      · simp only [byteLength_append, Nat.add_assoc]

/-- **The words of a source are its longest runs** of characters that are not blank. -/
theorem mem_splitWords_iff : t ∈ src.splitWords ↔ src.IsRun t := by
  constructor
  · intro ht
    obtain ⟨before, w, after, htext, hw, hbefore, hafter, rfl⟩ := src.splitWords_cuts.exists_run ht
    exact ⟨before, w, after, htext, hw, hbefore, hafter, by rw [Nat.zero_add]⟩
  · rintro ⟨before, w, after, htext, hw, hbefore, hafter, rfl⟩
    have hfront := (scanWords_cuts src before).1 0
    have hback := (scanWords_cuts src after).1 (0 + byteLength before + byteLength w)
    have hcuts := hfront.append hbefore (.word_append hw hafter hback)
    rw [← htext] at hcuts
    rw [src.splitWords_cuts.unique hcuts, Nat.zero_add]
    exact List.mem_append_right _ List.mem_cons_self

/-! ## Places -/

/-- A token stands inside the text that was cut, and not at its front if that is blank. -/
theorem Cuts.bounds (h : Cuts src offset cs tokens) (ht : t ∈ tokens) :
    offset ≤ t.extent.start ∧ t.extent.start < t.extent.stop ∧
      t.extent.stop ≤ offset + byteLength cs ∧
      ((∀ c ∈ cs.head?, isBlank c = true) → offset < t.extent.start) := by
  obtain ⟨before, w, after, rfl, hw, -, -, rfl⟩ := h.exists_run ht
  have hpos := byteLength_pos hw.1
  simp only [byteLength_append]
  refine ⟨by omega, by omega, by omega, fun hblank => ?_⟩
  have := byteLength_pos (ne_nil_of_head_blank hw hblank)
  omega

/-- **Each token ends before the next one starts.** -/
theorem Cuts.pairwise (h : Cuts src offset cs tokens) :
    tokens.Pairwise fun t u => t.extent.stop < u.extent.start := by
  induction h with
  | blank => exact .nil
  | word hgap hw hrest h ih =>
    exact .cons (fun u hu => (h.bounds hu).2.2.2 hrest) ih

/-- The token has the text that stands at its extent, and the source can be cut at both ends of it. -/
structure Holds (src : Source) (t : Token) : Prop where
  start_lt_stop : t.extent.start < t.extent.stop
  stop_le : t.extent.stop ≤ src.length
  start_isValid : String.Pos.Raw.IsValid src.text ⟨t.extent.start⟩
  stop_isValid : String.Pos.Raw.IsValid src.text ⟨t.extent.stop⟩
  cut_eq : src.cut t.extent.start t.extent.stop = .ok t

theorem IsRun.holds (h : src.IsRun t) : src.Holds t := by
  obtain ⟨before, w, after, htext, hw, -, -, rfl⟩ := h
  have hpos := byteLength_pos hw.1
  refine ⟨by simp only; omega, ?_, ?_, ?_, ?_⟩
  · simp only [length, size, htext, byteLength_append]
    omega
  · exact isValid_iff_exists_append.mpr ⟨before, w ++ after, htext, rfl⟩
  · exact isValid_iff_exists_append.mpr
      ⟨before ++ w, after, by rw [htext, List.append_assoc], by rw [byteLength_append]⟩
  · rw [cut, if_neg (by simp only; omega), slice?_of_append htext]

theorem IsRun.isWord (h : src.IsRun t) : IsWord t.text.toList := by
  obtain ⟨before, w, after, -, hw, -, -, rfl⟩ := h
  rwa [String.toList_ofList]

/-! ## Gaps -/

/-- What the tokens leave of a text that goes from one offset to another. -/
def gapsBetween (start stop : Nat) : List Token → List Extent
  | [] => [⟨start, stop⟩]
  | t :: ts => ⟨start, t.extent.start⟩ :: gapsBetween t.extent.stop stop ts

/-- The texts in turn, one of the first before each of the others and one behind the last. -/
def woven (gaps texts : List String) : String :=
  String.join (List.zipWith (· ++ ·) gaps (texts ++ [""]))

@[simp] theorem toList_woven_cons (gap : String) (gaps : List String) (text : String) (texts : List String) :
    (woven (gap :: gaps) (text :: texts)).toList =
      gap.toList ++ (text.toList ++ (woven gaps texts).toList) := by
  simp [woven, String.toList_join]

/-- **What the words leave out is blank**, and the words in turn with it are the text. -/
theorem Cuts.exists_gaps (h : Cuts src offset cs tokens) {before : List Char}
    (htext : src.text.toList = before ++ cs) (hoffset : offset = byteLength before) :
    ∃ gaps : List String,
      (gapsBetween offset src.length tokens).map (fun e => src.slice? e.start e.stop) =
        gaps.map some ∧
      (∀ gap ∈ gaps, isBlankText gap = true) ∧
      (woven gaps (tokens.map Token.text)).toList = cs := by
  have hblank {gap : List Char} (hgap : ∀ c ∈ gap, isBlank c = true) :
      isBlankText (String.ofList gap) = true := by
    rw [isBlankText, String.toList_ofList, List.all_eq_true]
    exact hgap
  induction h generalizing before with
  | @blank offset gap hgap =>
    subst hoffset
    refine ⟨[String.ofList gap], ?_, by simpa using hblank hgap, by simp [woven]⟩
    rw [← List.append_nil gap] at htext
    have hlen : src.length = byteLength before + byteLength gap := by
      rw [length, size, htext, List.append_nil, byteLength_append]
    simp only [gapsBetween, List.map_cons, List.map_nil, hlen, slice?_of_append htext]
  | @word offset gap w rest tokens hgap hw hrest _ ih =>
    subst hoffset
    have hnext : src.text.toList = (before ++ (gap ++ w)) ++ rest := by
      rw [htext]
      simp only [List.append_assoc]
    obtain ⟨gaps, hslices, hgaps, hwoven⟩ := ih hnext (by simp only [byteLength_append, Nat.add_assoc])
    refine ⟨String.ofList gap :: gaps, ?_, ?_, ?_⟩
    · rw [gapsBetween, List.map_cons, List.map_cons, hslices, slice?_of_append htext]
    · exact List.forall_mem_cons.mpr ⟨hblank hgap, hgaps⟩
    · simp [hwoven]

/-- **The words of a source.** They are its longest runs of characters that are not blank, in order
and apart from each other. Each has the text that stands at its extent, which is inside the source
and on character boundaries. What they leave out is blank, and together with them it is the source. -/
theorem splitWords_runs (src : Source) :
    (∀ t, t ∈ src.splitWords ↔ src.IsRun t) ∧
    src.splitWords.Pairwise (fun t u => t.extent.stop < u.extent.start) ∧
    (∀ t ∈ src.splitWords, src.Holds t ∧ IsWord t.text.toList) ∧
    ∃ gaps : List String,
      (gapsBetween 0 src.length src.splitWords).map (fun e => src.slice? e.start e.stop) =
        gaps.map some ∧
      (∀ gap ∈ gaps, isBlankText gap = true) ∧
      woven gaps (src.splitWords.map Token.text) = src.text := by
  have hcuts := src.splitWords_cuts
  refine ⟨fun t => mem_splitWords_iff, hcuts.pairwise, fun t ht => ?_, ?_⟩
  · have hrun := mem_splitWords_iff.mp ht
    exact ⟨hrun.holds, hrun.isWord⟩
  · have htext : src.text.toList = [] ++ src.text.toList := rfl
    obtain ⟨gaps, hslices, hgaps, hwoven⟩ := hcuts.exists_gaps htext rfl
    exact ⟨gaps, hslices, hgaps, String.toList_injective hwoven⟩

/-- Wide blank characters and wide letters count by their bytes. -/
theorem splitWords_runs_wide :
    let src : Source := ⟨0, "\u3000à\u0085payer"⟩
    let t : Token := ⟨"payer", ⟨7, 12⟩, src⟩
    t ∈ src.splitWords ∧ src.IsRun t ∧ src.Holds t := by
  intro src t
  have ht : t ∈ src.splitWords := by decide +kernel
  obtain ⟨hruns, -, hholds, -⟩ := splitWords_runs src
  exact ⟨ht, (hruns t).mp ht, (hholds t ht).1⟩

end Source

end SpacedNames
