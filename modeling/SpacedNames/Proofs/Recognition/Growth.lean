import Mathlib.Logic.Basic
import Mathlib.Tactic.ByContra
import SpacedNames.Proofs.Recognition.LongestMatch
import SpacedNames.Proofs.Scoping.Chain

/-!
# What one more name changes

A declaration may make names reachable that were not, shadow some and take the place of others. An
answer changes only if the new name reaches as far as the answer did, or farther.

* `Environment.Chained.visible_declare`: a declared name is bound in the scope that is visited
  first. `Chained.lookup_declare`, `Chained.nearest_declare`: so it is found, by its spelling and by its
  words, before every other name.
* `Environment.longestMatch_of_nearest`, `longestMatch_append_of_declares`: texts with the words of
  a visible name are recognized as this name. What follows may only make the answer longer.
* `phrase_take_inj`: as long as no text is blank, each one more text has more words, so a name has
  the words of one first part at most.
* `Chained.standing_declare_exact`: for other words than its own, a declaration changes nothing.
* `Chained.longestName_declare`, `Chained.longestName_declare_of_not`: the answer after the
  declaration is the new name, or the one from before.
* `Chained.longestMatch_openScope`: a scope without names changes no answer.
* `Environment.Grows`: all of this for one answer. `run_grows`: it holds in every run.
-/

namespace SpacedNames

open Text

/-! ## The scope of the name -/

namespace Scope

theorem holds_bind_self (s : Scope) (n : Name) : (s.bind n).Holds n := by
  have hfind : (s.bind n).find? n.key = some n := by rw [find?_bind, if_pos rfl]
  exact (find?_eq_some_iff.mp hfind).1

theorem get?_bind_self (s : Scope) (n : Name) : (s.bind n).get? n.spelling = some n := by
  rw [get?, ← n.key_eq, find?_bind, if_pos rfl]
  simp

end Scope

/-! ## The name among the visible ones -/

namespace Environment

variable {e : Environment}

/-- **A declared name is bound in the scope that is visited first.** -/
theorem Chained.visible_declare (h : e.Chained) (name : Name) :
    ∃ far, e.visible = e.scopes.innermost :: far ∧
      (e.declare name).2.visible = e.scopes.innermost.bind name :: far := by
  obtain ⟨front, hl⟩ := e.scopes.exists_toList_concat
  refine ⟨front.reverse, ?_, ?_⟩
  · rw [h.visible_eq, hl, List.reverse_append]
    rfl
  · rw [(h.declare name).visible_eq, h.toList_declare_concat hl, List.reverse_append]
    rfl

/-- The spelling of a declared name is found in the current scope. -/
theorem Chained.lookup_declare (h : e.Chained) (name : Name) :
    (e.declare name).2.lookup name.spelling = some ⟨name, e.current⟩ := by
  obtain ⟨far, -, hv⟩ := h.visible_declare name
  rw [lookup, hv, List.findSome?_cons, Scope.get?_bind_self, Scope.bind_handle, h.current]
  rfl

/-- No name with the same words is nearer than a declared one. -/
theorem Chained.nearest_declare (h : e.Chained) (name : Name) :
    (e.declare name).2.Nearest (words name.spelling) ⟨name, e.current⟩ := by
  obtain ⟨far, -, hv⟩ := h.visible_declare name
  exact ⟨[], _, far, hv, Scope.holds_bind_self _ _, rfl, h.current.symm, by simp⟩

/-! ## The texts of a visible name -/

variable {texts : List String}

theorem nameLength_of_declares (hne : texts ≠ []) (hb : ∀ t ∈ texts, isBlankText t = false)
    (hd : e.Declares (phrase texts)) (more : List String) :
    e.NameLength (texts ++ more) texts.length := by
  refine ⟨List.length_pos_iff.mpr hne, ?_, ?_⟩
  · rw [leading_append hb, List.length_append]
    omega
  · rwa [List.take_left]

/-- Texts with the words of a visible name are that name. -/
theorem longestMatch_of_nearest {r : Resolution} (hne : texts ≠ [])
    (hb : ∀ t ∈ texts, isBlankText t = false) (hn : e.Nearest (phrase texts) r) :
    e.longestMatch texts = some ⟨texts.length, joined texts, some r⟩ := by
  have hlen := nameLength_of_declares hne hb hn.declares []
  rw [List.append_nil] at hlen
  have hlong : ∀ j, e.NameLength texts j → j ≤ texts.length :=
    fun j hj => Nat.le_trans hj.2.1 (leading_length_le texts)
  have hall : texts.take texts.length = texts := List.take_length
  have hanswer := LongestName.declared hlen hlong (by rwa [hall])
  rw [hall] at hanswer
  exact (e.longestMatch_longestName texts).unique hanswer

/-- A name at the start of the texts is not missed. -/
theorem LongestName.exists_of_nameLength {answer : Option Match} {k : Nat}
    (h : e.LongestName texts answer) (hk : e.NameLength texts k) :
    ∃ m, answer = some m ∧ m.isDeclared = true ∧ k ≤ m.len := by
  cases h with
  | blank h => exact absurd hk (not_nameLength_of_leading_eq_nil h)
  | declared _ hlong _ => exact ⟨_, rfl, rfl, hlong k hk⟩
  | undeclared _ hno => exact absurd hk (hno k)

/-- **What follows the texts of a visible name makes the answer longer or leaves it**, and the answer
is a visible name in either case. -/
theorem longestMatch_append_of_declares (hne : texts ≠ []) (hb : ∀ t ∈ texts, isBlankText t = false)
    (hd : e.Declares (phrase texts)) (more : List String) :
    ∃ m, e.longestMatch (texts ++ more) = some m ∧ m.isDeclared = true ∧ texts.length ≤ m.len :=
  (e.longestMatch_longestName _).exists_of_nameLength (nameLength_of_declares hne hb hd more)

/-- The words of a name that was declared last are recognized as this name. -/
theorem Chained.longestMatch_declare (h : e.Chained) (name : Name) (hne : texts ≠ [])
    (hb : ∀ t ∈ texts, isBlankText t = false) (hw : phrase texts = words name.spelling) :
    (e.declare name).2.longestMatch texts =
        some ⟨texts.length, joined texts, some ⟨name, e.current⟩⟩ ∧
      ∀ more, ∃ m, (e.declare name).2.longestMatch (texts ++ more) = some m ∧
        m.isDeclared = true ∧ texts.length ≤ m.len := by
  have hn := h.nearest_declare name
  rw [← hw] at hn
  exact ⟨longestMatch_of_nearest hne hb hn, longestMatch_append_of_declares hne hb hn.declares⟩

end Environment

/-! ## First parts of texts -/

theorem take_eq_take_leading {texts : List String} {k : Nat} (hk : k ≤ (leading texts).length) :
    texts.take k = (leading texts).take k := by
  obtain ⟨rest, hr⟩ : leading texts <+: texts := List.takeWhile_prefix _
  calc texts.take k = (leading texts ++ rest).take k := by rw [hr]
    _ = (leading texts).take k := List.take_append_of_le_length hk

theorem not_blank_of_mem_leading {texts : List String} {t : String} (ht : t ∈ leading texts) :
    isBlankText t = false := by
  simpa using List.all_eq_true.mp List.all_takeWhile t ht

/-- Texts that are not blank have a word each, or more. -/
theorem length_le_length_phrase {texts : List String} (h : ∀ t ∈ texts, isBlankText t = false) :
    texts.length ≤ (phrase texts).length := by
  induction texts with
  | nil => exact Nat.le_refl _
  | cons t rest ih =>
    have hrest := ih fun s hs => h s (List.mem_cons_of_mem _ hs)
    have ht : words t ≠ [] := by
      rw [Ne, ← isBlankText_iff, h t List.mem_cons_self]
      exact Bool.false_ne_true
    have hpos := List.length_pos_iff.mpr ht
    rw [phrase, List.flatMap_cons, List.length_append, List.length_cons]
    rw [phrase] at hrest
    omega

theorem length_phrase_take_lt {texts : List String} {j k : Nat} (hlt : j < k)
    (hk : k ≤ (leading texts).length) :
    (phrase (texts.take j)).length < (phrase (texts.take k)).length := by
  rw [take_eq_take_leading hk, take_eq_take_leading (by omega : j ≤ (leading texts).length)]
  obtain ⟨n, rfl⟩ := Nat.exists_eq_add_of_lt hlt
  have hb : ∀ t ∈ ((leading texts).drop j).take (n + 1), isBlankText t = false := fun t ht =>
    not_blank_of_mem_leading (List.mem_of_mem_drop (List.mem_of_mem_take ht))
  have hlen := length_le_length_phrase hb
  rw [List.length_take, List.length_drop] at hlen
  rw [Nat.add_assoc, List.take_add, phrase_append, List.length_append]
  omega

/-- A name has the words of one first part at most. -/
theorem phrase_take_inj {texts : List String} {j k : Nat} (hj : j ≤ (leading texts).length)
    (hk : k ≤ (leading texts).length) (h : phrase (texts.take j) = phrase (texts.take k)) :
    j = k := by
  have hlen := congrArg List.length h
  rcases Nat.lt_trichotomy j k with hlt | rfl | hlt
  · exact absurd hlen (Nat.ne_of_lt (length_phrase_take_lt hlt hk))
  · rfl
  · exact absurd hlen (Nat.ne_of_gt (length_phrase_take_lt hlt hj))

namespace Environment

variable {e : Environment} {name : Name} {texts : List String} {m : Match}

/-! ## The words of the new name -/

/-- **For other words a declaration changes nothing**, as the name that it replaces has its own. -/
theorem Chained.standing_declare_exact (h : e.Chained) {candidate : String}
    (hne : words name.spelling ≠ words candidate) :
    ((e.declare name).2.standing candidate).exact = (e.standing candidate).exact := by
  obtain ⟨far, hv, hv'⟩ := h.visible_declare name
  have hkey : name.key ≠ normalize candidate := mt Name.key_eq_normalize_iff.mp hne
  rw [standing, standing, Standing.scan_exact, Standing.scan_exact, hv, hv', List.findSome?_cons,
    List.findSome?_cons, Scope.find?_bind, if_neg hkey, Scope.bind_handle]

theorem Chained.nearest_declare_iff (h : e.Chained) (hne : words name.spelling ≠ phrase texts)
    {r : Resolution} :
    (e.declare name).2.Nearest (phrase texts) r ↔ e.Nearest (phrase texts) r := by
  rw [← words_joined] at hne ⊢
  rw [← standing_exact_eq_some_iff, ← standing_exact_eq_some_iff, h.standing_declare_exact hne]

theorem Chained.declares_declare_iff (h : e.Chained) :
    (e.declare name).2.Declares (phrase texts) ↔
      words name.spelling = phrase texts ∨ e.Declares (phrase texts) := by
  by_cases heq : words name.spelling = phrase texts
  · have hn := (h.nearest_declare name).declares
    rw [heq] at hn
    exact iff_of_true hn (.inl heq)
  · rw [or_iff_right heq]
    rw [← words_joined] at heq ⊢
    have hexact := h.standing_declare_exact heq
    rw [← not_iff_not, ← standing_exact_eq_none_iff, ← standing_exact_eq_none_iff, hexact]

/-- What is a name length after a declaration was one before, or has the words of the new name. -/
theorem Chained.nameLength_declare (h : e.Chained) {k : Nat}
    (hk : (e.declare name).2.NameLength texts k) :
    phrase (texts.take k) = words name.spelling ∨ e.NameLength texts k := by
  obtain ⟨hpos, hle, hd⟩ := hk
  rcases h.declares_declare_iff.mp hd with heq | hd
  · exact .inl heq.symm
  · exact .inr ⟨hpos, hle, hd⟩

/-! ## The answer after a declaration -/

/-- The new name is the answer if it reaches as far as the one from before. -/
theorem Chained.longestName_declare (h : e.Chained) (hm : e.LongestName texts (some m)) {k : Nat}
    (hmk : m.len ≤ k) (hk : k ≤ (leading texts).length)
    (hw : phrase (texts.take k) = words name.spelling) :
    (e.declare name).2.LongestName texts
      (some ⟨k, joined (texts.take k), some ⟨name, e.current⟩⟩) := by
  obtain ⟨hpos, -, hlong⟩ := hm.bounds
  have hn := h.nearest_declare name
  rw [← hw] at hn
  refine .declared ⟨by omega, hk, hn.declares⟩ (fun j hj => ?_) hn
  rcases h.nameLength_declare hj with heq | hj'
  · exact Nat.le_of_eq (phrase_take_inj hj.2.1 hk (heq.trans hw.symm))
  · exact Nat.le_trans (hlong j hj') hmk

/-- In all other cases the answer is the one from before. -/
theorem Chained.longestName_declare_of_not (h : e.Chained) (hm : e.LongestName texts (some m))
    (hno : ¬ ∃ k, m.len ≤ k ∧ k ≤ (leading texts).length ∧
      phrase (texts.take k) = words name.spelling) :
    (e.declare name).2.LongestName texts (some m) := by
  cases hm with
  | @declared k r hk hlong hn =>
    have hne : words name.spelling ≠ phrase (texts.take k) :=
      fun heq => hno ⟨k, Nat.le_refl _, hk.2.1, heq.symm⟩
    rw [← h.nearest_declare_iff hne] at hn
    refine .declared ⟨hk.1, hk.2.1, hn.declares⟩ (fun j hj => ?_) hn
    rcases h.nameLength_declare hj with heq | hj'
    · by_contra hlt
      exact hno ⟨j, by simp only; omega, hj.2.1, heq⟩
    · exact hlong j hj'
  | undeclared hfirst hnone =>
    refine .undeclared hfirst fun j hj => ?_
    rcases h.nameLength_declare hj with heq | hj'
    · exact hno ⟨j, hj.1, hj.2.1, heq⟩
    · exact hnone j hj'

/-! ## Scopes without names -/

theorem Chained.visible_openScope (h : e.Chained) (label : String) :
    (e.openScope label).2.visible =
      .empty (e.openScope label).1 label (some e.current) :: e.visible := by
  have hl : (e.openScope label).2.scopes.toList =
      e.scopes.toList ++ [.empty (e.openScope label).1 label (some e.current)] := rfl
  rw [(h.openScope label).visible_eq, h.visible_eq, hl, List.reverse_concat]

/-- **A scope without names changes no answer.** -/
theorem Chained.longestMatch_openScope (h : e.Chained) (label : String) (texts : List String) :
    (e.openScope label).2.longestMatch texts = e.longestMatch texts := by
  refine longestMatch_congr (fun candidate => ?_) texts
  rw [standing, h.visible_openScope, Standing.scan_cons]
  rfl

/-! ## Every run -/

/-- What a declaration of the name does to the answer `m` for the texts. -/
structure Grows (e : Environment) (name : Name) (texts : List String) (m : Match) : Prop where
  /-- If its words are those of texts that reach as far as the answer, it is the answer. -/
  reached : ∀ k, m.len ≤ k → k ≤ (leading texts).length →
    phrase (texts.take k) = words name.spelling →
      (e.declare name).2.longestMatch texts =
        some ⟨k, joined (texts.take k), some ⟨name, e.current⟩⟩
  /-- If not, the answer stays what it was. -/
  unreached : (¬ ∃ k, m.len ≤ k ∧ k ≤ (leading texts).length ∧
      phrase (texts.take k) = words name.spelling) →
    (e.declare name).2.longestMatch texts = some m
  /-- No answer becomes shorter, and a name does not become none. -/
  not_shorter : ∃ m', (e.declare name).2.longestMatch texts = some m' ∧ m.len ≤ m'.len ∧
    (m.isDeclared = true → m'.isDeclared = true)
  /-- A shorter name does not hide the answer, in the current scope or in one inside it. -/
  not_hidden : ∀ k, k < m.len → phrase (texts.take k) = words name.spelling →
    (e.declare name).2.longestMatch texts = some m ∧
      ∀ label, ((e.openScope label).2.declare name).2.longestMatch texts = some m

theorem Chained.longestMatch_declare_of_not (h : e.Chained) (hm : e.longestMatch texts = some m)
    (hno : ¬ ∃ k, m.len ≤ k ∧ k ≤ (leading texts).length ∧
      phrase (texts.take k) = words name.spelling) :
    (e.declare name).2.longestMatch texts = some m := by
  have hl := e.longestMatch_longestName texts
  rw [hm] at hl
  exact (longestMatch_longestName _ texts).unique (h.longestName_declare_of_not hl hno)

/-- A name with the words of a shorter part does not have those of a longer one. -/
theorem not_reached_of_lt {j : Nat} (hj : j < m.len)
    (hw : phrase (texts.take j) = words name.spelling) :
    ¬ ∃ k, m.len ≤ k ∧ k ≤ (leading texts).length ∧
      phrase (texts.take k) = words name.spelling := by
  rintro ⟨k, hmk, hk, hwk⟩
  have hjk := phrase_take_inj (by omega) hk (hw.trans hwk.symm)
  omega

theorem Chained.grows (h : e.Chained) (hm : e.longestMatch texts = some m) :
    e.Grows name texts m := by
  have hl := e.longestMatch_longestName texts
  rw [hm] at hl
  have hreached : ∀ k, m.len ≤ k → k ≤ (leading texts).length →
      phrase (texts.take k) = words name.spelling → (e.declare name).2.longestMatch texts =
        some ⟨k, joined (texts.take k), some ⟨name, e.current⟩⟩ := fun k hmk hk hw =>
    (longestMatch_longestName _ texts).unique (h.longestName_declare hl hmk hk hw)
  refine ⟨hreached, h.longestMatch_declare_of_not hm, ?_, fun k hk hw => ?_⟩
  · by_cases hex : ∃ k, m.len ≤ k ∧ k ≤ (leading texts).length ∧
        phrase (texts.take k) = words name.spelling
    · obtain ⟨k, hmk, hk, hw⟩ := hex
      exact ⟨_, hreached k hmk hk hw, hmk, fun _ => rfl⟩
    · exact ⟨m, h.longestMatch_declare_of_not hm hex, Nat.le_refl _, id⟩
  · have hno := not_reached_of_lt hk hw
    refine ⟨h.longestMatch_declare_of_not hm hno, fun label => ?_⟩
    have hinner : (e.openScope label).2.longestMatch texts = some m := by
      rw [h.longestMatch_openScope, hm]
    exact (h.openScope label).longestMatch_declare_of_not hinner hno

/-- **Answers only grow.** In every run on a fresh environment, a declaration replaces an answer
exactly if the new name reaches as far as the answer or farther, and a scope that is opened replaces
none. -/
theorem run_grows {fresh : Environment} {builtins : List String} (hf : Fresh builtins fresh)
    (commands : List Command) (name : Name)
    (hm : (fresh.run commands).longestMatch texts = some m) :
    (fresh.run commands).Grows name texts m ∧
      ∀ label others, ((fresh.run commands).openScope label).2.longestMatch others =
        (fresh.run commands).longestMatch others :=
  have h : (fresh.run commands).Chained := hf.chained.run commands
  ⟨h.grows hm, h.longestMatch_openScope⟩

/-- The name of an outer scope is shadowed by another spelling of it. -/
theorem run_grows_respelled : Fresh ["net"] (withBuiltins "root" ["net"]) ∧
    ((withBuiltins "root" ["net"]).run [.openScope "outer", .declare (.declared "net total"),
      .openScope "inner", .declare (.declared "net")]).longestMatch ["net", "total", "due"] =
        some ⟨2, "net total", some ⟨.declared "net total", ⟨1, 1⟩⟩⟩ ∧
    ((withBuiltins "root" ["net"]).run [.openScope "outer", .declare (.declared "net total"),
      .openScope "inner", .declare (.declared "net")]).Grows (.declared "net  total")
        ["net", "total", "due"] ⟨2, "net total", some ⟨.declared "net total", ⟨1, 1⟩⟩⟩ :=
  have hf : Fresh ["net"] (withBuiltins "root" ["net"]) := .withBuiltins "root" _
  have hm : ((withBuiltins "root" ["net"]).run [.openScope "outer",
      .declare (.declared "net total"), .openScope "inner",
      .declare (.declared "net")]).longestMatch ["net", "total", "due"] =
        some ⟨2, "net total", some ⟨.declared "net total", ⟨1, 1⟩⟩⟩ := by decide +kernel
  ⟨hf, hm, (run_grows hf _ (.declared "net  total") hm).1⟩

end Environment

end SpacedNames
