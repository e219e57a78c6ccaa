import SpacedNames.Text.Words

/-!
# Words of joined texts

* `wordsOf_append_blank`: a blank character belongs to no word, so the words on its two sides are
  found apart. The other equations for words come from this one.
* `wordsOf_spaced`: words that are put together with spaces are read back, so `spaced` is injective
  on words, and `normalize_eq_iff`: two texts have one normal form exactly when they have the same
  words.
* `spaced_append`: where a sequence of words is cut, the text has a space.
* `phrase`: the words of several texts in order, which are those of the texts put together
  (`words_joined`).
-/

namespace SpacedNames.Text

/-- A word: one or more characters, none of them blank. -/
def IsWord (w : List Char) : Prop :=
  w ≠ [] ∧ ∀ c ∈ w, isBlank c = false

theorem IsWord.exists_cons {w : List Char} (hw : IsWord w) :
    ∃ c v, w = c :: v ∧ isBlank c = false := by
  obtain ⟨c, v, rfl⟩ := List.exists_cons_of_ne_nil hw.1
  exact ⟨c, v, rfl, hw.2 c List.mem_cons_self⟩

/-- A longest initial part of one kind of characters is found as such. -/
theorem takeWhile_append_of_head {p : Char → Bool} {xs ys : List Char} (hx : ∀ c ∈ xs, p c = true)
    (hy : ∀ c ∈ ys.head?, p c = false) : (xs ++ ys).takeWhile p = xs := by
  rw [List.takeWhile_append_of_pos hx]
  cases ys with
  | nil => simp
  | cons c ys => simp [hy c rfl]

/-! ## Pieces -/

theorem pieces_ne_nil (cs : List Char) : pieces cs ≠ [] := by
  cases cs with
  | nil => simp [pieces]
  | cons c cs =>
    unfold pieces
    split
    · simp
    · split <;> simp

theorem pieces_cons_blank {c : Char} (hc : isBlank c = true) (cs : List Char) :
    pieces (c :: cs) = [] :: pieces cs := by
  rw [pieces, if_pos hc]

/-- A character that is not blank goes to the front of the first piece. -/
theorem pieces_cons_of_not_blank {c : Char} (hc : isBlank c = false) {cs p : List Char}
    {ps : List (List Char)} (h : pieces cs = p :: ps) : pieces (c :: cs) = (c :: p) :: ps := by
  rw [pieces, if_neg (by simp [hc]), h]

theorem pieces_append_blank {c : Char} (hc : isBlank c = true) (xs ys : List Char) :
    pieces (xs ++ c :: ys) = pieces xs ++ pieces ys := by
  induction xs with
  | nil => rw [List.nil_append, pieces_cons_blank hc]; rfl
  | cons x xs ih =>
    rw [List.cons_append]
    cases hx : isBlank x with
    | true => rw [pieces_cons_blank hx, pieces_cons_blank hx, ih, List.cons_append]
    | false =>
      obtain ⟨p, ps, hp⟩ := List.exists_cons_of_ne_nil (pieces_ne_nil xs)
      rw [hp, List.cons_append] at ih
      rw [pieces_cons_of_not_blank hx hp, pieces_cons_of_not_blank hx ih, List.cons_append]

/-- A list without a blank character is one piece. -/
theorem pieces_of_no_blank {cs : List Char} (h : ∀ c ∈ cs, isBlank c = false) :
    pieces cs = [cs] := by
  induction cs with
  | nil => rfl
  | cons c cs ih =>
    exact pieces_cons_of_not_blank (h c List.mem_cons_self)
      (ih fun d hd => h d (List.mem_cons_of_mem _ hd))

/-- No piece holds a blank character. -/
theorem not_blank_of_mem_pieces {cs p : List Char} (hp : p ∈ pieces cs) :
    ∀ c ∈ p, isBlank c = false := by
  induction cs generalizing p with
  | nil =>
    obtain rfl : p = [] := by simpa [pieces] using hp
    simp
  | cons x xs ih =>
    cases hx : isBlank x with
    | true =>
      rw [pieces_cons_blank hx] at hp
      rcases List.mem_cons.mp hp with rfl | hp
      · simp
      · exact ih hp
    | false =>
      obtain ⟨q, qs, hq⟩ := List.exists_cons_of_ne_nil (pieces_ne_nil xs)
      rw [pieces_cons_of_not_blank hx hq] at hp
      rcases List.mem_cons.mp hp with rfl | hp
      · intro c hc
        rcases List.mem_cons.mp hc with rfl | hc
        · exact hx
        · exact ih (hq ▸ List.mem_cons_self) c hc
      · exact ih (hq ▸ List.mem_cons_of_mem _ hp)

/-! ## Words of a character list -/

/-- **A blank character belongs to no word.** -/
theorem wordsOf_append_blank {c : Char} (hc : isBlank c = true) (xs ys : List Char) :
    wordsOf (xs ++ c :: ys) = wordsOf xs ++ wordsOf ys := by
  simp only [wordsOf, pieces_append_blank hc, List.filter_append]

@[simp] theorem wordsOf_nil : wordsOf [] = [] := by
  simp [wordsOf, pieces]

/-- Blank characters before a text add no word. -/
theorem wordsOf_blank_append {gap : List Char} (h : ∀ c ∈ gap, isBlank c = true)
    (cs : List Char) : wordsOf (gap ++ cs) = wordsOf cs := by
  induction gap with
  | nil => rfl
  | cons c gap ih =>
    have hc := wordsOf_append_blank (h c List.mem_cons_self) [] (gap ++ cs)
    rw [wordsOf_nil] at hc
    exact hc.trans (ih fun d hd => h d (List.mem_cons_of_mem _ hd))

theorem isWord_of_mem_wordsOf {cs w : List Char} (hw : w ∈ wordsOf cs) : IsWord w := by
  obtain ⟨hp, hne⟩ := List.mem_filter.mp hw
  exact ⟨by simpa using hne, not_blank_of_mem_pieces hp⟩

theorem wordsOf_of_isWord {w : List Char} (hw : IsWord w) : wordsOf w = [w] := by
  rw [wordsOf, pieces_of_no_blank hw.2]
  simp [hw.1]

/-- A word ends where the text ends or a blank character follows. -/
theorem wordsOf_word_append {w rest : List Char} (hw : IsWord w)
    (hrest : ∀ c ∈ rest.head?, isBlank c = true) : wordsOf (w ++ rest) = w :: wordsOf rest := by
  cases rest with
  | nil => rw [List.append_nil, wordsOf_of_isWord hw, wordsOf_nil]
  | cons c rest =>
    have hc := hrest c rfl
    have hcut := wordsOf_append_blank hc [] rest
    rw [List.nil_append, wordsOf_nil, List.nil_append] at hcut
    rw [wordsOf_append_blank hc, wordsOf_of_isWord hw, hcut]
    rfl

/-- There is no word exactly when every character is blank. -/
theorem wordsOf_eq_nil_iff {cs : List Char} : wordsOf cs = [] ↔ ∀ c ∈ cs, isBlank c = true := by
  constructor
  · intro h
    induction cs with
    | nil => simp
    | cons c cs ih =>
      cases hc : isBlank c with
      | true =>
        have hcs : wordsOf cs = [] := by
          have := wordsOf_append_blank hc [] cs
          rwa [List.nil_append, h, wordsOf_nil, List.nil_append, eq_comm] at this
        intro d hd
        rcases List.mem_cons.mp hd with rfl | hd
        · exact hc
        · exact ih hcs d hd
      | false =>
        obtain ⟨p, ps, hp⟩ := List.exists_cons_of_ne_nil (pieces_ne_nil cs)
        rw [wordsOf, pieces_cons_of_not_blank hc hp] at h
        simp at h
  · intro h
    induction cs with
    | nil => exact wordsOf_nil
    | cons c cs ih =>
      have := wordsOf_append_blank (h c List.mem_cons_self) [] cs
      rw [List.nil_append] at this
      rw [this, wordsOf_nil, ih fun d hd => h d (List.mem_cons_of_mem _ hd), List.append_nil]

/-! ## Words with spaces between them -/

theorem spaced_cons {w : List Char} {ws : List (List Char)} (h : ws ≠ []) :
    spaced (w :: ws) = w ++ ' ' :: spaced ws := by
  cases ws with
  | nil => exact absurd rfl h
  | cons v vs => rfl

/-- Where a sequence of words is cut, the text has a space. -/
theorem spaced_append {ws vs : List (List Char)} (hw : ws ≠ []) (hv : vs ≠ []) :
    spaced (ws ++ vs) = spaced ws ++ ' ' :: spaced vs := by
  induction ws with
  | nil => exact absurd rfl hw
  | cons w ws ih =>
    by_cases h : ws = []
    · subst h
      exact spaced_cons hv
    · rw [List.cons_append, spaced_cons (by simp [h]), ih h, spaced_cons h, List.append_assoc,
        List.cons_append]

theorem spaced_eq_intercalate (ws : List (List Char)) : spaced ws = [' '].intercalate ws := by
  induction ws with
  | nil => rfl
  | cons w ws ih =>
    by_cases h : ws = []
    · subst h
      simp [spaced]
    · rw [spaced_cons h, List.intercalate_cons_of_ne_nil h, ih, List.append_assoc,
        List.singleton_append]

/-- The words of texts with spaces between them are the words of each. -/
theorem wordsOf_spaced_flatMap (ts : List (List Char)) :
    wordsOf (spaced ts) = ts.flatMap wordsOf := by
  induction ts with
  | nil => exact wordsOf_nil
  | cons t ts ih =>
    by_cases h : ts = []
    · subst h
      simp [spaced]
    · rw [spaced_cons h, wordsOf_append_blank isBlank_space, ih, List.flatMap_cons]

/-- **Words are read back.** -/
theorem wordsOf_spaced {ws : List (List Char)} (h : ∀ w ∈ ws, IsWord w) :
    wordsOf (spaced ws) = ws := by
  rw [wordsOf_spaced_flatMap]
  induction ws with
  | nil => rfl
  | cons w ws ih =>
    rw [List.flatMap_cons, wordsOf_of_isWord (h w List.mem_cons_self),
      ih fun v hv => h v (List.mem_cons_of_mem _ hv)]
    rfl

theorem wordsOf_spaced_wordsOf (cs : List Char) : wordsOf (spaced (wordsOf cs)) = wordsOf cs :=
  wordsOf_spaced fun _ hw => isWord_of_mem_wordsOf hw

theorem spaced_wordsOf_eq_iff {xs ys : List Char} :
    spaced (wordsOf xs) = spaced (wordsOf ys) ↔ wordsOf xs = wordsOf ys := by
  refine ⟨fun h => ?_, fun h => by rw [h]⟩
  rw [← wordsOf_spaced_wordsOf xs, h, wordsOf_spaced_wordsOf]

/-- **A text goes on after a sequence of words with a space** exactly when it is that sequence with
one or more words after it. -/
theorem exists_spaced_eq_append_space_iff {xs ys : List Char} (hx : wordsOf xs ≠ []) :
    (∃ rest, spaced (wordsOf ys) = spaced (wordsOf xs) ++ ' ' :: rest) ↔
      wordsOf xs <+: wordsOf ys ∧ wordsOf xs ≠ wordsOf ys := by
  constructor
  · rintro ⟨rest, h⟩
    have hw : wordsOf ys = wordsOf xs ++ wordsOf rest := by
      rw [← wordsOf_spaced_wordsOf ys, h, wordsOf_append_blank isBlank_space,
        wordsOf_spaced_wordsOf]
    refine ⟨⟨wordsOf rest, hw.symm⟩, fun he => ?_⟩
    rw [he] at h
    have := congrArg List.length h
    simp at this
  · rintro ⟨⟨vs, hvs⟩, hne⟩
    have hv : vs ≠ [] := by
      rintro rfl
      exact hne (by simpa using hvs)
    exact ⟨spaced vs, by rw [← hvs, spaced_append hx hv]⟩

/-! ## Words of a text -/

theorem words_eq_iff {a b : String} : words a = words b ↔ wordsOf a.toList = wordsOf b.toList :=
  List.map_inj_right fun _ _ => String.ofList_injective

theorem words_prefix_iff {a b : String} :
    words a <+: words b ↔ wordsOf a.toList <+: wordsOf b.toList :=
  List.prefix_map_iff_of_injective fun _ _ => String.ofList_injective

theorem words_eq_nil_iff {a : String} : words a = [] ↔ wordsOf a.toList = [] :=
  List.map_eq_nil_iff

/-- A text is blank exactly when it has no word. -/
theorem isBlankText_iff {text : String} : isBlankText text = true ↔ words text = [] := by
  rw [words_eq_nil_iff, wordsOf_eq_nil_iff, isBlankText, List.all_eq_true]

/-- A word of a text has no other word than itself. -/
theorem words_of_mem_words {text w : String} (hw : w ∈ words text) : words w = [w] := by
  obtain ⟨cs, hcs, rfl⟩ := List.mem_map.mp hw
  rw [words, String.toList_ofList, wordsOf_of_isWord (isWord_of_mem_wordsOf hcs), List.map_singleton]

theorem not_blank_of_mem_words {text w : String} (hw : w ∈ words text) : isBlankText w = false := by
  rw [Bool.eq_false_iff, Ne, isBlankText_iff, words_of_mem_words hw]
  simp

/-- The normal form has the words of the text. -/
theorem words_normalize (text : String) : words (normalize text) = words text := by
  rw [words, normalize, String.toList_ofList, wordsOf_spaced_wordsOf]
  rfl

/-- **The normal form tells the words of a text and nothing else.** -/
theorem normalize_eq_iff {a b : String} : normalize a = normalize b ↔ words a = words b := by
  rw [normalize, normalize, String.ofList_inj, spaced_wordsOf_eq_iff, words_eq_iff]

@[simp] theorem normalize_normalize (text : String) : normalize (normalize text) = normalize text :=
  normalize_eq_iff.mpr (words_normalize text)

/-- **Blank characters part the words of what stands before and behind them**, however many. -/
theorem words_append_gap {gap : String} (hne : gap ≠ "") (hgap : isBlankText gap = true)
    (a b : String) : words (a ++ gap ++ b) = words a ++ words b := by
  rw [isBlankText, List.all_eq_true] at hgap
  obtain ⟨c, rest, hc⟩ := List.exists_cons_of_ne_nil fun h => hne (String.toList_eq_nil_iff.mp h)
  rw [hc] at hgap
  obtain ⟨hblank, hrest⟩ := List.forall_mem_cons.mp hgap
  rw [words, String.toList_append, String.toList_append, hc, List.append_assoc, List.cons_append,
    wordsOf_append_blank hblank, wordsOf_blank_append hrest, List.map_append]
  rfl

theorem normalize_eq_empty_iff {a : String} : normalize a = "" ↔ words a = [] := by
  have h : normalize "" = "" := by simp [normalize, spaced]
  rw [← h, normalize_eq_iff]
  simp [words]

/-- The normal form goes on after another one with a space exactly when it has the same words and
one or more after them. -/
theorem normalize_continues_iff {a b : String} (ha : words a ≠ []) :
    (∃ rest, (normalize b).toList = (normalize a).toList ++ ' ' :: rest) ↔
      words a <+: words b ∧ words a ≠ words b := by
  rw [normalize, normalize, String.toList_ofList, String.toList_ofList,
    exists_spaced_eq_append_space_iff (mt words_eq_nil_iff.mpr ha), words_prefix_iff, Ne, Ne,
    words_eq_iff]

/-! ## Texts that are put together -/

theorem joined_eq_intercalate (texts : List String) : joined texts = " ".intercalate texts := by
  apply String.toList_injective
  rw [joined, String.toList_ofList, spaced_eq_intercalate, String.toList_intercalate]
  rfl

@[simp] theorem joined_singleton (text : String) : joined [text] = text := by
  simp [joined, spaced]

/-- One more text is put after the others, and a space before it. -/
theorem joined_append_singleton {texts : List String} (h : texts ≠ []) (text : String) :
    joined (texts ++ [text]) = joined texts ++ " " ++ text := by
  apply String.toList_injective
  rw [joined, joined, List.map_append, spaced_append (by simp [h]) (by simp)]
  simp [spaced]

/-- The words of texts, one text after the other. -/
def phrase (texts : List String) : List String :=
  texts.flatMap words

theorem phrase_append (xs ys : List String) : phrase (xs ++ ys) = phrase xs ++ phrase ys :=
  List.flatMap_append

@[simp] theorem phrase_singleton (text : String) : phrase [text] = words text := by
  simp [phrase]

/-- What follows at the end does not change the first words. -/
theorem phrase_mono {xs ys : List String} (h : xs <+: ys) : phrase xs <+: phrase ys := by
  obtain ⟨zs, rfl⟩ := h
  rw [phrase_append]
  exact List.prefix_append _ _

theorem words_joined (texts : List String) : words (joined texts) = phrase texts := by
  rw [words, joined, String.toList_ofList, wordsOf_spaced_flatMap, List.flatMap_map,
    List.map_flatMap]
  rfl

theorem phrase_words (text : String) : phrase (words text) = words text := by
  rw [← words_joined, ← normalize_eq_joined, words_normalize]

end SpacedNames.Text
