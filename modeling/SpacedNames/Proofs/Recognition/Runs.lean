import SpacedNames.Proofs.Recognition.Attempts

/-!
# Runs of an attempt

Between two commands scopes are opened and closed and names are declared, so the environment of one
command tells nothing about that of the next. What an attempt holds fits together all the same.

* `Attempt.accepted`: the texts that were accepted since the attempt began, as the starts and the
  answers tell them.
* `Match.Reads`, `Match.Named`: a match is a first part of some texts, and its name has its words.
* `Attempt.Tracks`: the attempt has accepted these texts, and what it has confirmed is a first part
  of them that was a name at its time. Each command keeps this (`Tracks.exec`).
* `Attempt.Consistent`: what this comes to for those who ask. `Attempt.run_consistent`: every run is
  `Consistent`.
-/

namespace SpacedNames

open Text

/-! ## Matches of a first part -/

namespace Match

variable {m : Match} {texts : List String}

/-- The match is the first one or more of the texts. -/
structure Reads (m : Match) (texts : List String) : Prop where
  len_pos : 0 < m.len
  len_le : m.len ≤ texts.length
  text_eq : m.text = joined (texts.take m.len)

/-- The match has a name, and the name has its words. -/
def Named (m : Match) : Prop :=
  ∃ r, m.resolution = some r ∧ r.name.key = normalize m.text

theorem Reads.append (h : m.Reads texts) (more : List String) : m.Reads (texts ++ more) where
  len_pos := h.len_pos
  len_le := Nat.le_trans h.len_le (by simp)
  text_eq := by rw [List.take_append_of_le_length h.len_le, h.text_eq]

theorem reads_all (h : texts ≠ []) (resolution : Option Resolution) :
    Reads ⟨texts.length, joined texts, resolution⟩ texts where
  len_pos := List.length_pos_iff.mpr h
  len_le := Nat.le_refl _
  text_eq := by rw [List.take_length]

theorem reads_first (first : String) (more : List String) (resolution : Option Resolution) :
    Reads ⟨1, first, resolution⟩ (first :: more) where
  len_pos := Nat.one_pos
  len_le := Nat.le_add_left _ _
  text_eq := (joined_singleton first).symm

end Match

theorem Environment.key_eq_of_standing_exact {e : Environment} {candidate : String}
    {r : Resolution} (h : (e.standing candidate).exact = some r) :
    r.name.key = normalize candidate := by
  obtain ⟨near, s, far, -, -, hwords, -⟩ := standing_exact_eq_some_iff.mp h
  exact Name.key_eq_normalize_iff.mpr hwords

namespace Attempt

/-! ## What was accepted -/

/-- The texts that were accepted since the attempt began, one command later. -/
def record (a : Attempt) (texts : List String) : Command → List String
  | .start _ text => if isBlankText text then [] else [text]
  | .offer e text => if (a.offer e text).1 then texts ++ [text] else texts
  | .reset => []

/-- The texts that were accepted since the attempt began which is there after the commands; `texts`
are those from before them. -/
def accepted (a : Attempt) (texts : List String) : List Command → List String
  | [] => texts
  | command :: rest => (a.exec command).accepted (a.record texts command) rest

variable {a : Attempt} {e : Environment} {first text : String} {more texts : List String}

theorem run_concat (a : Attempt) (commands : List Command) (command : Command) :
    a.run (commands ++ [command]) = (a.run commands).exec command :=
  List.foldl_append

theorem accepted_concat (a : Attempt) (texts : List String) (commands : List Command)
    (command : Command) :
    a.accepted texts (commands ++ [command]) =
      (a.run commands).record (a.accepted texts commands) command := by
  induction commands generalizing a texts with
  | nil => rfl
  | cons c rest ih => exact ih _ _

/-! ## What is confirmed -/

/-- What is confirmed, if anything is, is a first part of the texts that was a name at its time. -/
def Confirms (found : Option Match) (texts : List String) : Prop :=
  ∀ m ∈ found, m.Reads texts ∧ m.Named

theorem confirms_none (texts : List String) : Confirms none texts := by
  intro m hm
  cases hm

/-- With one more text, all of them may be confirmed, in whatever environment. -/
theorem Confirms.append_singleton {found : Option Match} (h : Confirms found texts)
    (e : Environment) (text : String) :
    Confirms
      (match (e.standing (joined (texts ++ [text]))).exact with
        | some r => some ⟨texts.length + 1, joined (texts ++ [text]), some r⟩
        | none => found)
      (texts ++ [text]) := by
  cases hx : (e.standing (joined (texts ++ [text]))).exact with
  | some r =>
    intro m hm
    obtain rfl := Option.some.inj hm
    have hne : texts ++ [text] ≠ [] := by simp
    have hall := Match.reads_all hne (some r)
    rw [List.length_append, List.length_singleton] at hall
    exact ⟨hall, r, rfl, Environment.key_eq_of_standing_exact hx⟩
  | none =>
    intro m hm
    exact ⟨(h m hm).1.append [text], (h m hm).2⟩

/-! ## One command -/

/-- The attempt has accepted these texts, and has confirmed a first part of them or nothing. -/
inductive Tracks (a : Attempt) : List String → Prop
  | none (h : a = empty) : a.Tracks []
  | some {first : String} {more : List String} (h : a.Spells first more)
      (hc : Confirms a.confirmed (first :: more)) : a.Tracks (first :: more)

theorem start_tracks (e : Environment) (h : isBlankText text = false) :
    (start e text).Tracks [text] := by
  refine .some (start_follows e h).toSpells ?_
  have hc := (confirms_none []).append_singleton e text
  rw [List.nil_append, joined_singleton] at hc
  rw [start_of_not_blank h]
  cases hx : (e.standing text).exact <;> rw [hx] at hc <;> exact hc

theorem Spells.accept_tracks (h : a.Spells first more) (hc : Confirms a.confirmed (first :: more))
    (e : Environment) (text : String) : (a.accept e text).Tracks (first :: more ++ [text]) := by
  refine .some (h.accept e text) ?_
  have hlonger := hc.append_singleton e text
  rw [← h.buffer_append, List.length_cons, ← h.count] at hlonger
  exact hlonger

/-- An offer begins an attempt, makes it longer, or leaves it. -/
theorem Tracks.offer (h : a.Tracks texts) (e : Environment) (text : String) :
    (a.offer e text).2.Tracks (a.record texts (.offer e text)) := by
  cases h with
  | none h =>
    subst h
    cases hb : isBlankText text with
    | true =>
      rw [record, offer_of_blank hb]
      exact .none rfl
    | false =>
      rw [record, offer_of_count_zero hb rfl]
      exact start_tracks e hb
  | some h hc =>
    cases ho : (a.offer e text).1 with
    | true =>
      rw [record, h.offer_of_accepted ho]
      exact h.accept_tracks hc e text
    | false =>
      obtain ⟨last, hl⟩ := h.offer_of_refused ho
      rw [record, hl]
      exact .some (h.of_last last) hc

/-- **Each command keeps the attempt and the accepted texts together**, whatever environment it
brings. -/
theorem Tracks.exec (h : a.Tracks texts) (command : Command) :
    (a.exec command).Tracks (a.record texts command) := by
  cases command with
  | start e text =>
    rw [Attempt.exec, record]
    cases hb : isBlankText text with
    | true => exact .none (start_of_blank hb)
    | false => exact start_tracks e hb
  | offer e text => exact h.offer e text
  | reset => exact .none rfl

theorem Tracks.run (h : a.Tracks texts) (commands : List Command) :
    (a.run commands).Tracks (a.accepted texts commands) := by
  induction commands generalizing a texts with
  | nil => exact h
  | cons command rest ih => exact ih (h.exec command)

/-! ## What it comes to -/

/-- All that an attempt tells fits to the texts that it has accepted. -/
structure Consistent (a : Attempt) (texts : List String) : Prop where
  /-- An attempt without a text is none at all. -/
  eq_empty_iff : a.count = 0 ↔ a = empty
  count : a.count = texts.length
  buffer : a.buffer = joined texts
  /-- The cut behind the first text is in the buffer and between two characters. -/
  firstText : a.firstText? = some (texts.head?.getD "")
  outcome_eq_none_iff : a.outcome = none ↔ a.count = 0
  outcome : ∀ m ∈ a.outcome, m.Reads texts
  confirmed : ∀ m ∈ a.confirmed, a.outcome = some m ∧ m.Named
  /-- Without a name the first text is the answer. -/
  unconfirmed : a.confirmed = none → a.outcome = texts.head?.map (⟨1, ·, none⟩)

theorem consistent_empty : empty.Consistent [] where
  eq_empty_iff := iff_of_true rfl rfl
  count := rfl
  buffer := rfl
  firstText := rfl
  outcome_eq_none_iff := iff_of_true rfl rfl
  outcome m hm := by cases hm
  confirmed m hm := by cases hm
  unconfirmed _ := rfl

theorem Spells.consistent (h : a.Spells first more)
    (hc : Confirms a.confirmed (first :: more)) : a.Consistent (first :: more) where
  eq_empty_iff := by
    refine iff_of_false h.count_ne_zero ?_
    rintro rfl
    exact h.count_ne_zero rfl
  count := h.count
  buffer := h.buffer
  firstText := h.firstText?
  outcome_eq_none_iff := by
    refine iff_of_false ?_ h.count_ne_zero
    rw [h.outcome]
    exact Option.some_ne_none _
  outcome m hm := by
    rw [h.outcome, Option.mem_some_iff] at hm
    subst hm
    cases hf : a.confirmed with
    | none => exact Match.reads_first first more none
    | some found => exact (hc found hf).1
  confirmed m hm := by
    refine ⟨?_, (hc m hm).2⟩
    rw [h.outcome, Option.mem_def.mp hm, Option.getD_some]
  unconfirmed hn := by
    rw [h.outcome, hn]
    rfl

theorem Tracks.consistent (h : a.Tracks texts) : a.Consistent texts := by
  cases h with
  | none h => exact h ▸ consistent_empty
  | some h hc => exact h.consistent hc

/-- **Every run keeps what the attempt holds in order**, though each command may bring another
environment: buffer and count are those of the accepted texts, and the answer is a first part of
them. -/
theorem run_consistent (commands : List Command) :
    (empty.run commands).Consistent (empty.accepted [] commands) :=
  ((Tracks.none rfl).run commands).consistent

/-- The name that was confirmed is the answer, also where it is no name any more. -/
example : (empty.run [.start (.withBuiltins "root" ["été"]) "été",
    .offer (.withBuiltins "root" ["été chaud et long"]) "chaud"]).outcome =
      some ⟨1, "été", some ⟨.builtin "été", ⟨0, 0⟩⟩⟩ := by decide +kernel

end Attempt

end SpacedNames
