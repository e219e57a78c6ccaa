import SpacedNames.Proofs.Scoping.Chain
import SpacedNames.Proofs.Source.Words

/-!
# Lookup by spelling and by words

A name is found by its key, and a candidate is put together from the words that the source was split
into. The two meet because the key tells just the words.

* `Name.wordCount_eq`: counting between the spaces of a key counts the words of the spelling.
* `normalize_splitWords`: the normal form of a text against the words that it splits into as a source.

`Environment.lookup` asks for one spelling, `Environment.standing` for words. A scope holds one
spelling of a key, and an inner scope may hold another one than an outer scope does.

* `Chained.findSome?_visible_eq_some_iff`: a search through the visible scopes finds the deepest one
  that has an answer.
* `Environment.NearestSpelled`: the name with this spelling in the nearest scope that spells its key
  so. `Chained.lookup_eq_some_iff`: this is what the lookup finds.
* `Environment.FoundByWords`: what the words of a name are found as that was found by its spelling. It
  is this name, unless a deeper scope has the key under another spelling (`Chained.foundByWords`).
* `Environment.run_lookup`: both in every run.
-/

namespace SpacedNames

open Text

/-! ## Keys and words -/

/-- **A key has as many pieces between its spaces as the name has words.** -/
theorem Name.wordCount_eq (n : Name) : n.wordCount = (words n.spelling).length := by
  have hkey : n.key.toList = [' '].intercalate (wordsOf n.spelling.toList) := by
    rw [n.key_eq, Text.normalize, String.toList_ofList, spaced_eq_intercalate]
  rw [wordCount, hkey, ← List.splitOn_eq_splitOnP, words, List.length_map]
  by_cases hnone : wordsOf n.spelling.toList = []
  · simp [hnone]
  · have hword {w : List Char} (hw : w ∈ wordsOf n.spelling.toList) : IsWord w :=
      isWord_of_mem_wordsOf hw
    have hspace : ∀ w ∈ wordsOf n.spelling.toList, ' ' ∉ w := by
      intro w hw hmem
      have hblank := (hword hw).2 ' ' hmem
      rw [isBlank_space] at hblank
      cases hblank
    rw [List.splitOn_intercalate ' ' hspace hnone, List.filter_eq_self.mpr]
    intro w hw
    simpa using (hword hw).1

/-- **The normal form tells the words of a text**, as they are split off in a source. It is these
words with single spaces between them. Texts have one normal form exactly if they split into the same
words, and a normal form is its own. Between two texts any blank characters are as good as a single
space between their normal forms. The words of a name are as many as its spelling splits into. -/
theorem normalize_splitWords (a b : Source) :
    normalize a.text = " ".intercalate (a.splitWords.map Token.text) ∧
    (normalize a.text = normalize b.text ↔
      a.splitWords.map Token.text = b.splitWords.map Token.text) ∧
    normalize (normalize a.text) = normalize a.text ∧
    (∀ gap, gap ≠ "" → isBlankText gap = true →
      normalize (a.text ++ gap ++ b.text) =
        normalize (normalize a.text ++ " " ++ normalize b.text)) ∧
    ∀ n : Name, n.spelling = a.text → n.wordCount = a.splitWords.length := by
  refine ⟨?_, ?_, normalize_normalize a.text, fun gap hne hgap => ?_, fun n hn => ?_⟩
  · rw [a.map_text_splitWords, normalize_eq_joined, joined_eq_intercalate]
  · rw [a.map_text_splitWords, b.map_text_splitWords]
    exact normalize_eq_iff
  · have hspace : isBlankText " " = true := rfl
    rw [normalize_eq_iff, words_append_gap hne hgap, words_append_gap (by decide) hspace,
      words_normalize, words_normalize]
  · rw [n.wordCount_eq, hn, ← a.map_text_splitWords, List.length_map]

/-- A line end and a wide space between two texts. -/
theorem normalize_splitWords_gap :
    "\n\u3000" ≠ "" ∧ isBlankText "\n\u3000" = true ∧
    normalize (" total  cost" ++ "\n\u3000" ++ "due") =
      normalize (normalize " total  cost" ++ " " ++ normalize "due") ∧
    (Name.declared " total  cost").wordCount =
      (Source.mk 0 " total  cost").splitWords.length := by
  have hgap : isBlankText "\n\u3000" = true := by decide
  obtain ⟨-, -, -, hjoin, hcount⟩ := normalize_splitWords ⟨0, " total  cost"⟩ ⟨1, "due"⟩
  exact ⟨by decide, hgap, hjoin _ (by decide) hgap, hcount (.declared " total  cost") rfl⟩

/-! ## Spellings of a scope -/

theorem Scope.get?_eq_some_iff {s : Scope} {spelling : String} {n : Name} :
    s.get? spelling = some n ↔ s.find? (normalize spelling) = some n ∧ n.spelling = spelling := by
  rw [get?, Option.filter_eq_some_iff, beq_iff_eq]

theorem Scope.get?_eq_none_iff {s : Scope} {spelling : String} :
    s.get? spelling = none ↔ ∀ n, s.find? (normalize spelling) = some n → n.spelling ≠ spelling := by
  rw [get?, Option.filter_eq_none_iff]
  simp only [beq_iff_eq, Ne]

namespace Environment

variable {e fresh : Environment} {builtins : List String} {near far : List Scope} {s t : Scope}
  {spelling : String} {r : Resolution}

/-! ## Depth -/

/-- The depth decreases on the way to the root. -/
theorem Chained.visible_decreasing (h : e.Chained) :
    e.visible.Pairwise fun t u => u.handle.depth < t.handle.depth := by
  rw [h.visible_eq, List.pairwise_reverse]
  exact h.linked.slotted.increasing

/-- **What is visited before a scope is deeper**, and all that is deeper is visited before it. -/
theorem Chained.mem_near_iff (h : e.Chained) (hv : e.visible = near ++ s :: far) :
    t ∈ near ↔ t ∈ e.visible ∧ s.handle.depth < t.handle.depth := by
  have hdec := h.visible_decreasing
  rw [hv, List.pairwise_append, List.pairwise_cons] at hdec
  obtain ⟨-, ⟨hfar, -⟩, hnear⟩ := hdec
  constructor
  · intro ht
    exact ⟨hv ▸ List.mem_append_left _ ht, hnear t ht s List.mem_cons_self⟩
  · rintro ⟨ht, hlt⟩
    rw [hv, List.mem_append, List.mem_cons] at ht
    rcases ht with ht | rfl | ht
    · exact ht
    · exact absurd hlt (Nat.lt_irrefl _)
    · exact absurd hlt (Nat.lt_asymm (hfar t ht))

/-- At one depth one scope is visible. -/
theorem Chained.eq_of_depth_eq (h : e.Chained) (hs : s ∈ e.visible) (ht : t ∈ e.visible)
    (hd : s.handle.depth = t.handle.depth) : s = t := by
  rw [h.visible_eq, List.mem_reverse, List.mem_iff_getElem?] at hs ht
  obtain ⟨i, hi⟩ := hs
  obtain ⟨j, hj⟩ := ht
  have hij : i = j := (h.linked.slot i s hi).symm.trans (hd.trans (h.linked.slot j t hj))
  subst hij
  exact Option.some.inj (hi.symm.trans hj)

/-- **A search finds the deepest visible scope that has an answer.** -/
theorem Chained.findSome?_visible_eq_some_iff (h : e.Chained) {f : Scope → Option Name} :
    e.visible.findSome? (fun s => (f s).map (⟨·, s.handle⟩)) = some r ↔
      ∃ s ∈ e.visible, r.scope = s.handle ∧ f s = some r.name ∧
        ∀ t ∈ e.visible, r.scope.depth < t.handle.depth → f t = none := by
  rw [List.findSome?_eq_some_iff]
  simp only [Option.map_eq_some_iff, Option.map_eq_none_iff]
  constructor
  · rintro ⟨near, s, far, hv, ⟨n, hn, rfl⟩, hnear⟩
    refine ⟨s, by simp [hv], rfl, hn, fun t ht hlt => ?_⟩
    exact hnear t ((h.mem_near_iff hv).mpr ⟨ht, hlt⟩)
  · rintro ⟨s, hs, hscope, hn, hdeeper⟩
    obtain ⟨near, far, hv⟩ := List.append_of_mem hs
    refine ⟨near, s, far, hv, ⟨r.name, hn, by rw [← hscope]⟩, fun t ht => ?_⟩
    obtain ⟨ht, hlt⟩ := (h.mem_near_iff hv).mp ht
    exact hdeeper t ht (hscope ▸ hlt)

/-! ## Lookup by spelling -/

/-- The name that has this spelling, in the nearest visible scope that spells its key so. A deeper
scope may hold the key under another spelling. -/
def NearestSpelled (e : Environment) (spelling : String) (r : Resolution) : Prop :=
  ∃ s ∈ e.visible, r.scope = s.handle ∧
    (s.find? (normalize spelling) = some r.name ∧ r.name.spelling = spelling) ∧
    ∀ t ∈ e.visible, r.scope.depth < t.handle.depth →
      ∀ n, t.find? (normalize spelling) = some n → n.spelling ≠ spelling

theorem Chained.lookup_eq_some_iff (h : e.Chained) :
    e.lookup spelling = some r ↔ e.NearestSpelled spelling r := by
  rw [lookup, h.findSome?_visible_eq_some_iff]
  simp only [Scope.get?_eq_some_iff, Scope.get?_eq_none_iff, NearestSpelled]

/-! ## Lookup by words -/

/-- The exact answer for words is the name in the deepest visible scope that holds their key. -/
theorem Chained.exact_eq_some_iff (h : e.Chained) :
    (e.standing spelling).exact = some r ↔
      ∃ s ∈ e.visible, r.scope = s.handle ∧ s.find? (normalize spelling) = some r.name ∧
        ∀ t ∈ e.visible, r.scope.depth < t.handle.depth → t.find? (normalize spelling) = none := by
  rw [standing, Standing.scan_exact, Option.none_or]
  exact h.findSome?_visible_eq_some_iff

/-- The spelling is found as `r`, and its words are found as `q`. -/
structure FoundByWords (e : Environment) (spelling : String) (r q : Resolution) : Prop where
  exact : (e.standing spelling).exact = some q
  key_eq : q.name.key = r.name.key
  scope : q.scope = r.scope ∨ r.scope.depth < q.scope.depth
  /-- The two are the same exactly if no deeper scope has the key under another spelling. -/
  eq_iff : q = r ↔ ∀ t ∈ e.visible, r.scope.depth < t.handle.depth →
    ∀ n, t.find? r.name.key = some n → n.spelling = spelling

/-- The key of a name that is found by its spelling is found in a scope, so its words are known. -/
theorem Chained.exists_exact_of_lookup (h : e.Chained) (hr : e.lookup spelling = some r) :
    ∃ q, (e.standing spelling).exact = some q := by
  obtain ⟨s, hs, -, ⟨hfind, -⟩, -⟩ := h.lookup_eq_some_iff.mp hr
  rw [← Option.ne_none_iff_exists', Ne, standing_exact_eq_none_iff, Classical.not_not]
  obtain ⟨hn, hw⟩ := Scope.find?_normalize_eq_some_iff.mp hfind
  exact ⟨s, hs, r.name, hn, hw⟩

/-- **The words of a name that is found by its spelling are found as well**, in its scope or in a
deeper one. -/
theorem Chained.foundByWords (h : e.Chained) {q : Resolution} (hr : e.lookup spelling = some r)
    (hq : (e.standing spelling).exact = some q) : e.FoundByWords spelling r q := by
  obtain ⟨s, hs, hscope, ⟨hfind, hspell⟩, hdeeper⟩ := h.lookup_eq_some_iff.mp hr
  obtain ⟨u, hu, huscope, hufind, hnone⟩ := h.exact_eq_some_iff.mp hq
  have hkey : r.name.key = normalize spelling := (Scope.find?_eq_some_iff.mp hfind).2
  have hukey : q.name.key = normalize spelling := (Scope.find?_eq_some_iff.mp hufind).2
  have horder : u = s ∨ s.handle.depth < u.handle.depth := by
    rcases Nat.lt_trichotomy s.handle.depth u.handle.depth with hlt | heq | hlt
    · exact .inr hlt
    · exact .inl (h.eq_of_depth_eq hu hs heq.symm)
    · -- The scope of `r` holds the key, so it is not deeper than the deepest one that does.
      rw [hnone s hs (huscope ▸ hlt)] at hfind
      cases hfind
  refine ⟨hq, hukey.trans hkey.symm, ?_, ?_, fun hsame => ?_⟩
  · rw [hscope, huscope]
    exact horder.imp_left fun hus => by rw [hus]
  · rintro rfl t ht hlt n hn
    rw [hkey, hnone t ht hlt] at hn
    cases hn
  · rcases horder with rfl | hlt
    · have hname : q.name = r.name := Option.some.inj (hufind.symm.trans hfind)
      cases q
      cases r
      simp only at hname hscope huscope
      rw [hname, hscope, huscope]
    · rw [← hscope] at hlt
      exact absurd (hsame u hu hlt q.name (hkey ▸ hufind)) (hdeeper u hu hlt q.name hufind)

/-- **Lookup by spelling, and what the words tell of it.** In every run on a fresh environment a
lookup finds the nearest name that is spelled exactly so and passes by nearer ones with its key. Where
the words are unknown it finds none. Where it finds a name, the words are found in the same scope or
in a deeper one, and as the same name exactly if no deeper scope spells its key differently. -/
theorem run_lookup (hf : Fresh builtins fresh) (commands : List Command) (spelling : String) :
    (∀ r, (fresh.run commands).lookup spelling = some r ↔
        (fresh.run commands).NearestSpelled spelling r) ∧
      (((fresh.run commands).standing spelling).exact = none →
        (fresh.run commands).lookup spelling = none) ∧
      ∀ r, (fresh.run commands).lookup spelling = some r →
        ∃ q, (fresh.run commands).FoundByWords spelling r q := by
  have h : (fresh.run commands).Chained := hf.chained.run commands
  refine ⟨fun r => h.lookup_eq_some_iff, fun hnone => ?_, fun r hr => ?_⟩
  · rw [Option.eq_none_iff_forall_ne_some]
    intro r hr
    obtain ⟨q, hq⟩ := h.exists_exact_of_lookup hr
    rw [hnone] at hq
    cases hq
  · obtain ⟨q, hq⟩ := h.exists_exact_of_lookup hr
    exact ⟨q, h.foundByWords hr hq⟩

/-- The spelling of the outer scope is found behind that of the inner one, which is the answer for
the words. -/
theorem run_lookup_respelled : Fresh ["total cost"] (withBuiltins "root" ["total cost"]) ∧
    ((withBuiltins "root" ["total cost"]).run [.openScope "outer",
      .declare (.declared "total  cost"), .openScope "inner",
      .declare (.declared "total   cost")]).lookup "total  cost" =
        some ⟨.declared "total  cost", ⟨1, 1⟩⟩ ∧
    ((withBuiltins "root" ["total cost"]).run [.openScope "outer",
      .declare (.declared "total  cost"), .openScope "inner",
      .declare (.declared "total   cost")]).FoundByWords "total  cost"
        ⟨.declared "total  cost", ⟨1, 1⟩⟩ ⟨.declared "total   cost", ⟨2, 2⟩⟩ := by
  have hf : Fresh ["total cost"] (withBuiltins "root" ["total cost"]) := .withBuiltins "root" _
  have hr : ((withBuiltins "root" ["total cost"]).run [.openScope "outer",
      .declare (.declared "total  cost"), .openScope "inner",
      .declare (.declared "total   cost")]).lookup "total  cost" =
        some ⟨.declared "total  cost", ⟨1, 1⟩⟩ := by decide +kernel
  have hx : (((withBuiltins "root" ["total cost"]).run [.openScope "outer",
      .declare (.declared "total  cost"), .openScope "inner",
      .declare (.declared "total   cost")]).standing "total  cost").exact =
        some ⟨.declared "total   cost", ⟨2, 2⟩⟩ := by decide +kernel
  obtain ⟨q, hq⟩ := (run_lookup hf [.openScope "outer", .declare (.declared "total  cost"),
    .openScope "inner", .declare (.declared "total   cost")] "total  cost").2.2 _ hr
  obtain rfl := Option.some.inj (hq.exact.symm.trans hx)
  exact ⟨hf, hr, hq⟩

end Environment

end SpacedNames
