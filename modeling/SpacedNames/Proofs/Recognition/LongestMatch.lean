import SpacedNames.Proofs.Recognition.Attempts

/-!
# The longest name at the start of a run of tokens

The scan offers one token after the other and stops at the first one that is refused. It finds the
longest name all the same.

* `Environment.NameLength e texts k`: the first `k` texts are a visible name, and none of them is
  blank. Each text may be any string and hold several words or none.
* `Environment.LongestName`: the answer in terms of these lengths, without a scan.
* `Attempt.Follows.offerAll`: what the scan accepts, what it tells, and why it stops: the next text is
  blank, or it leads to no visible name. Then no longer run leads to one (`not_leads_of_stop`).
* `Environment.longestMatch_eq_iff`: the scan gives the answer of `LongestName`, and no other.
-/

namespace SpacedNames

open Text

/-- The texts before the first blank one. -/
def leading (texts : List String) : List String :=
  texts.takeWhile (!isBlankText ·)

theorem leading_cons_of_blank {text : String} (h : isBlankText text = true) (rest : List String) :
    leading (text :: rest) = [] :=
  List.takeWhile_cons_of_neg (by simp [h])

theorem leading_cons_of_not_blank {text : String} (h : isBlankText text = false)
    (rest : List String) : leading (text :: rest) = text :: leading rest :=
  List.takeWhile_cons_of_pos (by simp [h])

theorem leading_append {xs : List String} (h : ∀ t ∈ xs, isBlankText t = false)
    (ys : List String) : leading (xs ++ ys) = xs ++ leading ys :=
  List.takeWhile_append_of_pos fun t ht => by simp [h t ht]

theorem leading_length_le (texts : List String) : (leading texts).length ≤ texts.length :=
  (List.takeWhile_prefix _).length_le

/-! ## The answer without a scan -/

namespace Environment

/-- The first `k` texts are a visible name, and none of them is blank. -/
def NameLength (e : Environment) (texts : List String) (k : Nat) : Prop :=
  0 < k ∧ k ≤ (leading texts).length ∧ e.Declares (phrase (texts.take k))

/-- The longest name at the start of the texts; else the first text alone; nothing if that is
blank. -/
inductive LongestName (e : Environment) (texts : List String) : Option Match → Prop
  | blank (h : leading texts = []) : LongestName e texts none
  | declared {k : Nat} {r : Resolution} (h : e.NameLength texts k)
      (longest : ∀ j, e.NameLength texts j → j ≤ k)
      (nearest : e.Nearest (phrase (texts.take k)) r) :
      LongestName e texts (some ⟨k, joined (texts.take k), some r⟩)
  | undeclared {first : String} (h : (leading texts).head? = some first)
      (no_name : ∀ j, ¬ e.NameLength texts j) : LongestName e texts (some ⟨1, first, none⟩)

theorem not_nameLength_of_leading_eq_nil {e : Environment} {texts : List String} {k : Nat}
    (h : leading texts = []) : ¬ e.NameLength texts k := by
  rintro ⟨hpos, hk, -⟩
  rw [h, List.length_nil] at hk
  omega

/-- The texts have one longest name. -/
theorem LongestName.unique {e : Environment} {texts : List String} {a b : Option Match}
    (ha : e.LongestName texts a) (hb : e.LongestName texts b) : a = b := by
  cases ha with
  | blank ha =>
    cases hb with
    | blank => rfl
    | declared hb => exact absurd hb (not_nameLength_of_leading_eq_nil ha)
    | undeclared hb =>
      rw [ha] at hb
      cases hb
  | declared ha hla hna =>
    cases hb with
    | blank hb => exact absurd ha (not_nameLength_of_leading_eq_nil hb)
    | declared hb hlb hnb =>
      obtain rfl := Nat.le_antisymm (hlb _ ha) (hla _ hb)
      rw [← words_joined] at hna hnb
      rw [hna.unique hnb]
    | undeclared _ hb => exact absurd ha (hb _)
  | undeclared ha hna =>
    cases hb with
    | blank hb =>
      rw [hb] at ha
      cases ha
    | declared hb => exact absurd hb (hna _)
    | undeclared hb =>
      rw [hb] at ha
      cases ha
      rfl

/-- No answer is shorter than one token, runs past the texts, or stops before a longer name. -/
theorem LongestName.bounds {e : Environment} {texts : List String} {m : Match}
    (h : e.LongestName texts (some m)) :
    0 < m.len ∧ m.len ≤ texts.length ∧ ∀ k, e.NameLength texts k → k ≤ m.len := by
  have hle := leading_length_le texts
  cases h with
  | declared h hlong =>
    obtain ⟨hpos, hk, -⟩ := h
    exact ⟨hpos, Nat.le_trans hk hle, hlong⟩
  | undeclared h hno =>
    have hlen : 0 < (leading texts).length := List.length_pos_of_mem (List.mem_of_head? h)
    exact ⟨Nat.one_pos, by simp only; omega, fun k hk => absurd hk (hno k)⟩

end Environment

/-! ## The scan -/

/-- How the offers of texts end that follow the accepted ones `first :: more`: those of `taken` are
accepted, and the first one of `left`, if there is any, is refused. -/
structure Environment.Parts (e : Environment) (first : String)
    (more taken left : List String) : Prop where
  not_blank : ∀ t ∈ taken, isBlankText t = false
  leads : taken ≠ [] → e.Leads (phrase (first :: (more ++ taken)))
  stops : ∀ t ∈ left.head?, isBlankText t = true ∨
    ¬ e.Leads (phrase (first :: (more ++ taken) ++ [t]))

theorem Environment.Parts.acc_not_blank {e : Environment} {first : String}
    {more taken left : List String} (h : e.Parts first more taken left)
    (hb : isBlankText first = false) : ∀ t ∈ first :: taken, isBlankText t = false := by
  intro t ht
  rcases List.mem_cons.mp ht with rfl | ht
  · exact hb
  · exact h.not_blank t ht

namespace Attempt

variable {a : Attempt} {e : Environment} {first : String} {more : List String}

/-- The decisions on texts that were accepted, and on the first one of those that were left. -/
def told (taken left : List String) : List Decision :=
  taken.map (.offered · true) ++ left.head?.toList.map (.offered · false)

/-- Telling the decisions does not change them. -/
theorem offerAll_fst (a : Attempt) (e : Environment) (texts : List String) :
    (a.offerAll e texts).1 = a.absorb e texts := by
  induction texts generalizing a with
  | nil => rfl
  | cons text rest ih =>
    rw [Attempt.offerAll, Attempt.absorb]
    split
    · exact ih _
    · rfl

/-- **Why the scan stops.** It takes texts that are not blank, one after the other, as long as they
lead to a visible name, and tells so of each of them. The first one that it leaves is blank or leads
to no visible name. -/
theorem Follows.offerAll (h : a.Follows e first more) (rest : List String) :
    ∃ taken left, rest = taken ++ left ∧ e.Parts first more taken left ∧
      (a.offerAll e rest).1.Follows e first (more ++ taken) ∧
      (a.offerAll e rest).2 = told taken left := by
  induction rest generalizing a more with
  | nil =>
    refine ⟨[], [], rfl, ⟨by simp, fun hne => absurd rfl hne, by simp⟩, ?_, rfl⟩
    rwa [List.append_nil]
  | cons text rest ih =>
    cases ho : (a.offer e text).1 with
    | true =>
      obtain ⟨hb, hleads⟩ := h.offer_fst_iff.mp ho
      obtain ⟨taken, left, rfl, hp, hf, hd⟩ := ih (h.accept text)
      have hmore : more ++ [text] ++ taken = more ++ text :: taken := List.append_cons .. |>.symm
      rw [hmore] at hf
      have hparts : e.Parts first more (text :: taken) left := by
        refine ⟨?_, fun _ => ?_, hmore ▸ hp.stops⟩
        · intro t ht
          rcases List.mem_cons.mp ht with rfl | ht
          · exact hb
          · exact hp.not_blank t ht
        · cases taken with
          | nil => exact hleads
          | cons t taken => exact hmore ▸ hp.leads (List.cons_ne_nil _ _)
      refine ⟨text :: taken, left, rfl, hparts, ?_, ?_⟩
      · rwa [Attempt.offerAll, h.offer_of_accepted ho]
      · rw [Attempt.offerAll, h.offer_of_accepted ho]
        exact congrArg (.offered text true :: ·) hd
    | false =>
      obtain ⟨last, hl⟩ := h.offer_of_refused ho
      refine ⟨[], text :: rest, rfl, ⟨by simp, fun hne => absurd rfl hne, ?_⟩, ?_, ?_⟩
      · intro t ht
        obtain rfl : text = t := by simpa using ht
        have hr : ¬ (a.offer e text).1 = true := by simp [ho]
        rw [h.offer_fst_iff] at hr
        rw [List.append_nil]
        cases hb : isBlankText text with
        | true => exact .inl rfl
        | false => exact .inr fun hl => hr ⟨hb, hl⟩
      · rw [Attempt.offerAll, hl, List.append_nil]
        exact h.of_last last
      · rw [Attempt.offerAll, hl]
        rfl

end Attempt

namespace Environment

variable {e : Environment}

/-- Behind a text that leads to no name, nothing leads to one. -/
theorem not_leads_of_stop {acc left : List String} (hacc : ∀ t ∈ acc, isBlankText t = false)
    (hstop : ∀ t ∈ left.head?, isBlankText t = true ∨ ¬ e.Leads (phrase (acc ++ [t]))) {k : Nat}
    (hk : acc.length < k) (hle : k ≤ (leading (acc ++ left)).length) :
    ¬ e.Leads (phrase ((acc ++ left).take k)) := by
  intro hl
  rw [leading_append hacc, List.length_append] at hle
  cases left with
  | nil =>
    simp only [leading, List.takeWhile_nil, List.length_nil] at hle
    omega
  | cons t left =>
    rcases hstop t rfl with hb | hno
    · rw [leading_cons_of_blank hb, List.length_nil] at hle
      omega
    · have hp : acc ++ [t] <+: (acc ++ t :: left).take k := by
        rw [List.prefix_take_iff]
        refine ⟨⟨left, by simp⟩, ?_⟩
        rw [List.length_append, List.length_singleton]
        omega
      exact hno (hl.of_prefix (phrase_mono hp))

/-- The longest name among the accepted texts is the longest one at all, if the scan stops
there. -/
theorem longestName_of_stop {first : String} {taken left : List String} {found : Option Match}
    (hacc : ∀ t ∈ first :: taken, isBlankText t = false)
    (hlong : e.Longest (first :: taken) found)
    (hstop : ∀ t ∈ left.head?, isBlankText t = true ∨ ¬ e.Leads (phrase (first :: taken ++ [t]))) :
    e.LongestName (first :: taken ++ left) (some (found.getD ⟨1, first, none⟩)) := by
  have htake : ∀ k, k ≤ (first :: taken).length →
      (first :: taken ++ left).take k = (first :: taken).take k :=
    fun k hk => List.take_append_of_le_length hk
  have hbeyond : ∀ k, e.NameLength (first :: taken ++ left) k → k ≤ (first :: taken).length :=
    fun _ hk => Nat.not_lt.mp fun hlt => not_leads_of_stop hacc hstop hlt hk.2.1 hk.2.2.leads
  cases found with
  | none =>
    refine .undeclared ?_ fun k hk => ?_
    · rw [leading_append hacc]
      rfl
    · have hle := hbeyond k hk
      exact hlong k hk.1 hle (htake k hle ▸ hk.2.2)
  | some m =>
    obtain ⟨hpos, hlen, htext, ⟨r, hr, hn⟩, hno⟩ := hlong
    obtain ⟨len, text, resolution⟩ := m
    simp only at hpos hlen htext hr hn hno
    subst htext hr
    rw [← htake len hlen] at hn ⊢
    refine .declared ⟨hpos, ?_, hn.declares⟩ (fun k hk => ?_) hn
    · rw [leading_append hacc, List.length_append]
      omega
    · have hle := hbeyond k hk
      exact Nat.not_lt.mp fun hlt => hno k hlt hle (htake k hle ▸ hk.2.2)

/-- The answer of the scan is the longest name. -/
theorem longestMatch_longestName (e : Environment) (texts : List String) :
    e.LongestName texts (e.longestMatch texts) := by
  cases texts with
  | nil => exact .blank rfl
  | cons first rest =>
    cases hb : isBlankText first with
    | true =>
      rw [longestMatch, Attempt.start_of_blank hb]
      exact .blank (leading_cons_of_blank hb rest)
    | false =>
      have hs := Attempt.start_follows e hb
      obtain ⟨taken, left, rfl, hp, hf, -⟩ := hs.offerAll rest
      rw [Attempt.offerAll_fst] at hf
      rw [longestMatch, if_neg hs.count_ne_zero, hf.outcome]
      exact longestName_of_stop (hp.acc_not_blank hb) hf.longest hp.stops

/-- Two environments in which all candidates stand alike give the same answers. -/
theorem longestMatch_congr {e' : Environment}
    (hs : ∀ candidate, e'.standing candidate = e.standing candidate) (texts : List String) :
    e'.longestMatch texts = e.longestMatch texts := by
  have hstart : ∀ text, Attempt.start e' text = Attempt.start e text := by
    intro text
    simp only [Attempt.start, hs]
  have hoffer : ∀ (a : Attempt) text, a.offer e' text = a.offer e text := by
    intro a text
    simp only [Attempt.offer, hs, hstart]
  have habsorb : ∀ texts (a : Attempt), a.absorb e' texts = a.absorb e texts := by
    intro texts
    induction texts with
    | nil => exact fun _ => rfl
    | cons text rest ih =>
      intro a
      rw [Attempt.absorb, Attempt.absorb, hoffer]
      split
      · exact ih _
      · rfl
  cases texts with
  | nil => rfl
  | cons first rest => rw [longestMatch, longestMatch, hstart, habsorb]

/-- **The scan finds the longest name**: its answer is the one that `LongestName` tells, and it
stops before no longer name. -/
theorem longestMatch_eq_iff (e : Environment) (texts : List String) :
    (∀ answer, e.longestMatch texts = answer ↔ e.LongestName texts answer) ∧
      ∀ m ∈ e.longestMatch texts,
        0 < m.len ∧ m.len ≤ texts.length ∧ ∀ k, e.NameLength texts k → k ≤ m.len := by
  have h := longestMatch_longestName e texts
  refine ⟨fun answer => ⟨fun ha => ha ▸ h, fun ha => h.unique ha⟩, fun m hm => ?_⟩
  rw [Option.mem_def.mp hm] at h
  exact h.bounds

end Environment

end SpacedNames
