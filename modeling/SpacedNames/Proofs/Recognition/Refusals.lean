import Mathlib.Data.List.Induction
import SpacedNames.Proofs.Recognition.LongestMatch
import SpacedNames.Proofs.Recognition.Runs

/-!
# Refused texts leave no trace

A grammar may go on offering after a text was refused. In one environment the decision is the one
that the accepted texts alone lead to.

* `Attempt.trial`: begins an attempt and offers it some texts, whatever the answers are.
* `Attempt.SameDecision`: two attempts tell the same, but for the memory of the last candidate.
* `Attempt.Sifted`: what a trial comes to. One more text is kept (`Sifted.keep`) or dropped
  (`Sifted.drop`).
* `Attempt.Decided`: the decision in terms of words, and which texts would still be accepted.
* `Attempt.run_trial`: every trial is decided by the texts that were accepted in it.
-/

namespace SpacedNames

open Text

/-! ## Which first parts are names -/

namespace Environment

variable {e : Environment} {texts : List String} {found : Option Match}

theorem Longest.isSome_iff (h : e.Longest texts found) : found.isSome = true ↔
    ∃ k, 0 < k ∧ k ≤ texts.length ∧ e.Declares (phrase (texts.take k)) := by
  cases found with
  | none =>
    refine iff_of_false Bool.false_ne_true ?_
    rintro ⟨k, hpos, hk, hd⟩
    exact h k hpos hk hd
  | some m =>
    obtain ⟨hpos, hlen, -, ⟨r, -, hn⟩, -⟩ := h
    exact iff_of_true rfl ⟨m.len, hpos, hlen, hn.declares⟩

/-- All of the texts are the longest name exactly if they are a name. -/
theorem Longest.len_eq_length_iff (h : e.Longest texts found) (hne : texts ≠ []) :
    found.map Match.len = some texts.length ↔ e.Declares (phrase texts) := by
  have hpos := List.length_pos_iff.mpr hne
  have hall : texts.take texts.length = texts := List.take_length
  cases found with
  | none =>
    refine iff_of_false (Option.some_ne_none _).symm fun hd => ?_
    exact h texts.length hpos (Nat.le_refl _) (by rwa [hall])
  | some m =>
    obtain ⟨-, hlen, -, ⟨r, -, hn⟩, hno⟩ := h
    rw [Option.map_some, Option.some_inj]
    constructor
    · intro he
      rw [he, hall] at hn
      exact hn.declares
    · intro hd
      by_contra hlt
      exact hno texts.length (by omega) (Nat.le_refl _) (by rwa [hall])

end Environment

namespace Attempt

variable {a b : Attempt} {e : Environment} {first text : String} {texts kept : List String}

/-! ## One decision -/

/-- The two attempts have accepted the same and give the same answers. -/
structure SameDecision (a b : Attempt) : Prop where
  buffer : b.buffer = a.buffer
  count : b.count = a.count
  confirmed : b.confirmed = a.confirmed
  isComplete : b.isComplete = a.isComplete
  outcome : b.outcome = a.outcome

/-- The memory of the last candidate decides nothing. -/
theorem sameDecision_of_last (a : Attempt) (last : Option Standing) :
    SameDecision a { a with last } :=
  ⟨rfl, rfl, rfl, rfl, rfl⟩

/-- What an attempt that has accepted the texts tells and how it goes on, all in one environment. -/
structure Decided (a : Attempt) (e : Environment) (texts : List String) : Prop where
  /-- The answer is that of the scan of the accepted texts. -/
  outcome : a.outcome = e.longestMatch texts
  confirmed_iff : a.confirmed.isSome = true ↔
    ∃ k, 0 < k ∧ k ≤ texts.length ∧ e.Declares (phrase (texts.take k))
  longest : ∀ m ∈ a.confirmed, e.Longest texts (some m)
  isComplete_iff : a.isComplete = true ↔ e.Declares (words a.buffer)
  /-- A text is accepted if its words, after the others, are those of a name or its first ones. -/
  accepts_iff : ∀ text, (a.offer e text).1 = true ↔
    isBlankText text = false ∧ e.Leads (phrase texts ++ words text)
  refused : ∀ text, (a.offer e text).1 = false → SameDecision a (a.offer e text).2
  /-- A blank text is not even remembered. -/
  blank : ∀ text, isBlankText text = true → a.offer e text = (false, a)

theorem Follows.outcome_eq_longestMatch (h : a.Follows e first kept)
    (hb : ∀ t ∈ first :: kept, isBlankText t = false) :
    a.outcome = e.longestMatch (first :: kept) := by
  have hscan : e.LongestName (first :: kept ++ []) (some (a.confirmed.getD ⟨1, first, none⟩)) :=
    Environment.longestName_of_stop hb h.longest (by simp)
  rw [List.append_nil, ← h.outcome] at hscan
  exact hscan.unique (e.longestMatch_longestName _)

theorem Follows.isComplete_iff (h : a.Follows e first kept) :
    a.isComplete = true ↔ e.Declares (words a.buffer) := by
  rw [isComplete, Bool.and_eq_true, decide_eq_true_eq, beq_iff_eq,
    and_iff_left (Nat.pos_of_ne_zero h.count_ne_zero), h.count, h.buffer, words_joined]
  exact h.longest.len_eq_length_iff (List.cons_ne_nil _ _)

theorem Follows.decided (h : a.Follows e first kept)
    (hb : ∀ t ∈ first :: kept, isBlankText t = false) : a.Decided e (first :: kept) where
  outcome := h.outcome_eq_longestMatch hb
  confirmed_iff := h.longest.isSome_iff
  longest m hm := by
    have hl := h.longest
    rwa [Option.mem_def.mp hm] at hl
  isComplete_iff := h.isComplete_iff
  accepts_iff text := by
    rw [h.offer_fst_iff, phrase_append, phrase_singleton]
  refused text hr := by
    obtain ⟨last, hl⟩ := h.offer_of_refused hr
    rw [hl]
    exact a.sameDecision_of_last last
  blank _ hblank := offer_of_blank hblank

/-! ## Trials -/

/-- Begins an attempt and offers it all of the texts, whatever the answers are. -/
def trial (e : Environment) (first : String) (texts : List String) : List Command :=
  .start e first :: texts.map (.offer e)

theorem trial_concat (e : Environment) (first : String) (texts : List String) (text : String) :
    trial e first (texts ++ [text]) = trial e first texts ++ [.offer e text] := by
  simp [trial]

/-- In the trial of `texts` those of `kept` were accepted after the first one. But for the memory of
the last candidate, the attempt is the one to which only these were offered. -/
structure Sifted (a : Attempt) (e : Environment) (first : String) (texts kept : List String) :
    Prop where
  sublist : kept.Sublist texts
  not_blank : ∀ t ∈ first :: kept, isBlankText t = false
  accepted : a.accepted [] (trial e first texts) = first :: kept
  follows : (a.run (trial e first texts)).Follows e first kept
  same : ∃ last, a.run (trial e first texts) = { a.run (trial e first kept) with last }

theorem sifted_start (a : Attempt) (e : Environment) (h : isBlankText first = false) :
    a.Sifted e first [] [] where
  sublist := List.nil_sublist _
  not_blank t ht := by rwa [List.mem_singleton.mp ht]
  accepted := if_neg (by simp [h])
  follows := start_follows e h
  same := ⟨_, rfl⟩

/-- A text that is accepted is accepted without the refused ones, too. -/
theorem Sifted.keep (h : a.Sifted e first texts kept)
    (ho : ((a.run (trial e first texts)).offer e text).1 = true) :
    a.Sifted e first (texts ++ [text]) (kept ++ [text]) := by
  obtain ⟨last, hsame⟩ := h.same
  have hoffer := h.follows.offer_of_accepted ho
  have hkept : (a.run (trial e first kept)).Follows e first kept := by
    have hl := h.follows.of_last (a.run (trial e first kept)).last
    rwa [hsame] at hl
  have hpure := hkept.offer_of_accepted
    (hkept.offer_fst_iff.mpr (h.follows.offer_fst_iff.mp ho))
  refine ⟨h.sublist.append (List.Sublist.refl _), ?_, ?_, ?_, ?_⟩
  · intro t ht
    rw [← List.cons_append] at ht
    rcases List.mem_append.mp ht with ht | ht
    · exact h.not_blank t ht
    · rw [List.mem_singleton.mp ht]
      exact (h.follows.offer_fst_iff.mp ho).1
  · rw [trial_concat, accepted_concat, h.accepted, record, if_pos ho, List.cons_append]
  · rw [trial_concat, run_concat, exec, hoffer]
    exact h.follows.accept text
  · refine ⟨((a.run (trial e first kept)).accept e text).last, ?_⟩
    rw [trial_concat, trial_concat, run_concat, run_concat, exec, exec, hoffer, hpure, hsame]
    rfl

/-- A text that is refused leaves the attempt as it was. -/
theorem Sifted.drop (h : a.Sifted e first texts kept)
    (ho : ((a.run (trial e first texts)).offer e text).1 = false) :
    a.Sifted e first (texts ++ [text]) kept := by
  obtain ⟨last, hsame⟩ := h.same
  obtain ⟨next, hoffer⟩ := h.follows.offer_of_refused ho
  refine ⟨h.sublist.trans (List.sublist_append_left _ _), h.not_blank, ?_, ?_, next, ?_⟩
  · rw [trial_concat, accepted_concat, h.accepted, record, if_neg (by simp [ho])]
  · rw [trial_concat, run_concat, exec, hoffer]
    exact h.follows.of_last next
  · rw [trial_concat, run_concat, exec, hoffer, hsame]

theorem exists_sifted (a : Attempt) (e : Environment) (h : isBlankText first = false)
    (texts : List String) : ∃ kept, a.Sifted e first texts kept := by
  induction texts using List.reverseRecOn with
  | nil => exact ⟨[], a.sifted_start e h⟩
  | append_singleton texts text ih =>
    obtain ⟨kept, hs⟩ := ih
    cases ho : ((a.run (trial e first texts)).offer e text).1 with
    | true => exact ⟨kept ++ [text], hs.keep ho⟩
    | false => exact ⟨kept, hs.drop ho⟩

/-- **Refused texts leave no trace.** Whatever is offered, the decision is the one that the accepted
texts lead to when only they are offered: the longest name among their first parts. -/
theorem run_trial (a : Attempt) (e : Environment) (h : isBlankText first = false)
    (texts : List String) :
    ∃ kept, kept.Sublist texts ∧ a.accepted [] (trial e first texts) = first :: kept ∧
      SameDecision (a.run (trial e first kept)) (a.run (trial e first texts)) ∧
      (a.run (trial e first texts)).Decided e (first :: kept) := by
  obtain ⟨kept, hs⟩ := a.exists_sifted e h texts
  obtain ⟨last, hsame⟩ := hs.same
  refine ⟨kept, hs.sublist, hs.accepted, ?_, hs.follows.decided hs.not_blank⟩
  rw [hsame]
  exact sameDecision_of_last _ last

/-- Between the words of a name stand a word that leads nowhere, a blank text and a word of another
name. -/
theorem run_trial_interleaved :
    isBlankText "net" = false ∧
    empty.accepted [] (trial (.withBuiltins "root" ["net", "net  total due", "paid"]) "net"
      ["x", "total", " ", "paid", "due"]) = ["net", "total", "due"] ∧
    (empty.run (trial (.withBuiltins "root" ["net", "net  total due", "paid"]) "net"
      ["x", "total", " ", "paid", "due"])).Decided
        (.withBuiltins "root" ["net", "net  total due", "paid"]) ["net", "total", "due"] := by
  have hb : isBlankText "net" = false := by decide +kernel
  have hkept : empty.accepted [] (trial (.withBuiltins "root" ["net", "net  total due", "paid"])
      "net" ["x", "total", " ", "paid", "due"]) = ["net", "total", "due"] := by decide +kernel
  obtain ⟨kept, -, haccepted, -, hdecided⟩ :=
    run_trial empty (.withBuiltins "root" ["net", "net  total due", "paid"]) hb
      ["x", "total", " ", "paid", "due"]
  rw [← haccepted, hkept] at hdecided
  exact ⟨hb, hkept, hdecided⟩

end Attempt

end SpacedNames
