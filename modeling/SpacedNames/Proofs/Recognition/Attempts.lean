import SpacedNames.Proofs.Scoping.Candidates
import SpacedNames.Recognition.Attempt

/-!
# What an attempt has accepted

* `Attempt.Spells a first more`: the buffer, the head and the count of `a` are those of the
  accepted texts `first :: more`, whatever the environment was at each of them. So the first text
  can be cut out of the buffer again (`Spells.firstText?`).
* `Environment.Longest`: the longest name at the start of a list of texts.
* `Attempt.Follows`: `a` spells its texts and has confirmed the longest name among them. `start`
  establishes it (`start_follows`), and a token that is accepted keeps it (`Follows.accept`).
* `Follows.offer_fst_iff`: a token is accepted exactly when it is not blank and its words, after
  those of the accepted ones, still lead to a visible name.
-/

namespace SpacedNames

open Text

/-! ## The longest name at the start of a list -/

namespace Environment

/-- `found` is the longest name that the first one or more of the texts are; `none` if there is no
such name. -/
def Longest (e : Environment) (texts : List String) : Option Match → Prop
  | none => ∀ k, 0 < k → k ≤ texts.length → ¬ e.Declares (phrase (texts.take k))
  | some found =>
    0 < found.len ∧ found.len ≤ texts.length ∧ found.text = joined (texts.take found.len) ∧
      (∃ r, found.resolution = some r ∧ e.Nearest (phrase (texts.take found.len)) r) ∧
      ∀ k, found.len < k → k ≤ texts.length → ¬ e.Declares (phrase (texts.take k))

theorem longest_nil (e : Environment) : e.Longest [] none := by
  intro k hpos hk
  rw [List.length_nil] at hk
  omega

/-- With one more text the answer changes exactly when all of them are a name. -/
theorem Longest.append_singleton {e : Environment} {texts : List String} {found : Option Match}
    (h : e.Longest texts found) (text : String) :
    e.Longest (texts ++ [text])
      (match (e.standing (joined (texts ++ [text]))).exact with
        | some r => some ⟨texts.length + 1, joined (texts ++ [text]), some r⟩
        | none => found) := by
  have htake : ∀ k, k ≤ texts.length → (texts ++ [text]).take k = texts.take k :=
    fun k hk => List.take_append_of_le_length hk
  have hall : (texts ++ [text]).take (texts.length + 1) = texts ++ [text] :=
    List.take_of_length_le (by simp)
  cases hx : (e.standing (joined (texts ++ [text]))).exact with
  | some r =>
    rw [standing_exact_eq_some_iff, words_joined] at hx
    refine ⟨Nat.succ_pos _, by simp, by rw [hall], ⟨r, rfl, by rw [hall]; exact hx⟩, ?_⟩
    intro k hlt hk
    simp only [List.length_append, List.length_singleton] at hk hlt
    omega
  | none =>
    rw [standing_exact_eq_none_iff, words_joined] at hx
    -- A longer name is either all of the texts, or was there before.
    have hlast : ∀ k, k ≤ (texts ++ [text]).length → ¬ k ≤ texts.length →
        ¬ e.Declares (phrase ((texts ++ [text]).take k)) := by
      intro k hk hlt
      rw [List.length_append, List.length_singleton] at hk
      rw [show k = texts.length + 1 by omega, hall]
      exact hx
    cases found with
    | none =>
      intro k hpos hk
      by_cases hle : k ≤ texts.length
      · rw [htake k hle]
        exact h k hpos hle
      · exact hlast k hk hle
    | some m =>
      obtain ⟨hpos, hlen, htext, hres, hlong⟩ := h
      refine ⟨hpos, by simp only [List.length_append]; omega, by rw [htake _ hlen]; exact htext,
        by rw [htake _ hlen]; exact hres, ?_⟩
      intro k hlt hk
      by_cases hle : k ≤ texts.length
      · rw [htake k hle]
        exact hlong k hlt hle
      · exact hlast k hk hle

end Environment

namespace Attempt

/-! ## The accepted texts -/

/-- The attempt has accepted these texts. -/
structure Spells (a : Attempt) (first : String) (more : List String) : Prop where
  buffer : a.buffer = joined (first :: more)
  head : a.head = size first
  count : a.count = more.length + 1

variable {a : Attempt} {e : Environment} {first text : String} {more : List String}

theorem Spells.count_ne_zero (h : a.Spells first more) : a.count ≠ 0 := by
  rw [h.count]
  exact Nat.succ_ne_zero _

/-- The first text is cut out of the buffer: the buffer starts with it, and the cut is behind
it. -/
theorem Spells.firstText? (h : a.Spells first more) : a.firstText? = some first := by
  obtain ⟨rest, hrest⟩ : ∃ rest, a.buffer.toList = first.toList ++ rest := by
    rw [h.buffer, joined, String.toList_ofList, List.map_cons]
    by_cases hm : more = []
    · subst hm
      exact ⟨[], by simp [spaced]⟩
    · exact ⟨_, spaced_cons (by simpa using hm)⟩
  rw [Attempt.firstText?, hrest, h.head, size, takeBytes?_append, Option.map_some,
    String.ofList_toList]

/-- An attempt that has accepted a token always has an answer. -/
theorem Spells.outcome (h : a.Spells first more) :
    a.outcome = some (a.confirmed.getD ⟨1, first, none⟩) := by
  rw [Attempt.outcome, if_neg h.count_ne_zero, h.firstText?]
  cases a.confirmed <;> rfl

theorem Spells.buffer_append (h : a.Spells first more) (text : String) :
    a.buffer ++ " " ++ text = joined (first :: more ++ [text]) := by
  rw [h.buffer, joined_append_singleton (List.cons_ne_nil _ _)]

/-- Only the memory of the last candidate differs. -/
theorem Spells.of_last (h : a.Spells first more) (last : Option Standing) :
    { a with last }.Spells first more :=
  ⟨h.buffer, h.head, h.count⟩

/-! ## One token -/

theorem start_of_blank (h : isBlankText text = true) : start e text = empty := by
  rw [start, if_pos h]

theorem start_of_not_blank (h : isBlankText text = false) : start e text =
    { buffer := text
      head := size text
      count := 1
      last := some (e.standing text)
      confirmed := (e.standing text).exact.map fun r => ⟨1, text, some r⟩ } := by
  rw [start, if_neg (by simp [h])]
  simp only [confirm]
  cases (e.standing text).exact <;> rfl

theorem offer_of_blank (h : isBlankText text = true) : a.offer e text = (false, a) := by
  rw [offer, if_pos h]

/-- A token that is offered to no attempt begins one. -/
theorem offer_of_count_zero (h : isBlankText text = false) (hc : a.count = 0) :
    a.offer e text = (true, start e text) := by
  rw [offer, if_neg (by simp [h]), if_pos hc]

/-- The attempt after a token that is accepted. -/
def accept (a : Attempt) (e : Environment) (text : String) : Attempt where
  buffer := a.buffer ++ " " ++ text
  head := a.head
  count := a.count + 1
  last := some (e.standing (a.buffer ++ " " ++ text))
  confirmed :=
    match (e.standing (a.buffer ++ " " ++ text)).exact with
    | some r => some ⟨a.count + 1, a.buffer ++ " " ++ text, some r⟩
    | none => a.confirmed

/-- A token that is offered to an attempt is accepted, or leaves it as it is but for the memory of
the last candidate. -/
theorem offer_of_count_pos (h : isBlankText text = false) (hc : a.count ≠ 0) :
    a.offer e text =
      if (e.standing (a.buffer ++ " " ++ text)).keepsGoing then (true, a.accept e text)
      else (false, { a with last := some (e.standing (a.buffer ++ " " ++ text)) }) := by
  rw [offer, if_neg (by simp [h]), if_neg hc]
  simp only [accept, confirm]
  cases (e.standing (a.buffer ++ " " ++ text)).exact <;> rfl

/-- A token is accepted exactly when it is not blank and still leads to a visible name. -/
theorem Spells.offer_fst_iff (h : a.Spells first more) :
    (a.offer e text).1 = true ↔
      isBlankText text = false ∧ e.Leads (phrase (first :: more ++ [text])) := by
  cases hb : isBlankText text with
  | true =>
    rw [offer_of_blank hb]
    simp
  | false =>
    have hw : words (joined (first :: more ++ [text])) ≠ [] := by
      rw [words_joined, phrase_append, phrase_singleton]
      intro hnil
      have := isBlankText_iff.mpr (List.append_eq_nil_iff.mp hnil).2
      simp [hb] at this
    rw [offer_of_count_pos hb h.count_ne_zero, h.buffer_append, ← words_joined,
      ← Environment.keepsGoing_iff hw, and_iff_right rfl]
    split
    · rename_i hk
      exact iff_of_true rfl hk
    · rename_i hk
      exact iff_of_false Bool.false_ne_true hk

theorem Spells.offer_of_accepted (h : a.Spells first more) (ho : (a.offer e text).1 = true) :
    a.offer e text = (true, a.accept e text) := by
  have hb := (h.offer_fst_iff.mp ho).1
  rw [offer_of_count_pos hb h.count_ne_zero] at ho ⊢
  split at ho
  · rw [if_pos ‹_›]
  · cases ho

theorem Spells.offer_of_refused (h : a.Spells first more) (ho : (a.offer e text).1 = false) :
    ∃ last, a.offer e text = (false, { a with last }) := by
  cases hb : isBlankText text with
  | true => exact ⟨a.last, offer_of_blank hb⟩
  | false =>
    rw [offer_of_count_pos hb h.count_ne_zero] at ho ⊢
    split at ho
    · cases ho
    · exact ⟨_, if_neg ‹_›⟩

theorem Spells.accept (h : a.Spells first more) (e : Environment) (text : String) :
    (a.accept e text).Spells first (more ++ [text]) where
  buffer := h.buffer_append text
  head := h.head
  count := by rw [Attempt.accept, h.count, List.length_append, List.length_singleton]

/-! ## One environment -/

/-- The attempt has accepted these texts and confirmed the longest name among the first of them,
all in one environment. -/
structure Follows (a : Attempt) (e : Environment) (first : String) (more : List String) : Prop
    extends a.Spells first more where
  longest : e.Longest (first :: more) a.confirmed

theorem Follows.of_last (h : a.Follows e first more) (last : Option Standing) :
    { a with last }.Follows e first more :=
  ⟨h.toSpells.of_last last, h.longest⟩

theorem start_follows (e : Environment) (h : isBlankText text = false) :
    (start e text).Follows e text [] := by
  rw [start_of_not_blank h]
  refine ⟨⟨(joined_singleton text).symm, rfl, rfl⟩, ?_⟩
  have hl := (Environment.longest_nil e).append_singleton text
  rw [List.nil_append, joined_singleton] at hl
  cases hx : (e.standing text).exact <;> rw [hx] at hl <;> exact hl

theorem Follows.accept (h : a.Follows e first more) (text : String) :
    (a.accept e text).Follows e first (more ++ [text]) := by
  refine ⟨h.toSpells.accept e text, ?_⟩
  have hl := h.longest.append_singleton text
  rw [← h.buffer_append, List.length_cons, ← h.count] at hl
  exact hl

end Attempt

end SpacedNames
