import SpacedNames.Proofs.Recognition.LongestMatch
import SpacedNames.Resolver.Session

/-!
# Three ways to one answer

A resolver finds the name at the start of a run of tokens by looking ahead, by checkpoints, or
driven by a grammar that offers the tokens itself (`Resolver.tokenByToken`).

* `Environment.checkpointMatch_fst`: the loop that tells its decisions makes the same ones as the
  scan that does not.
* `Resolver.tokenByToken_eq`: the resolver's own attempt goes the same way, from any attempt that
  was left behind.
* `Resolver.recognition_agrees`: the three ways give one answer, and the first two leave the
  resolver as it is.
-/

namespace SpacedNames

open Text

/-! ## Checkpoints -/

theorem Environment.checkpointMatch_fst (e : Environment) (texts : List String) :
    (e.checkpointMatch texts).1 = e.longestMatch texts := by
  cases texts with
  | nil => rfl
  | cons first rest =>
    rw [checkpointMatch, longestMatch]
    split
    · rfl
    · rw [← Attempt.offerAll_fst]
      simp only
      split
      · rename_i h
        exact h.symm
      · rename_i h
        exact h.symm

theorem Environment.longestMatch_eq_none_iff {e : Environment} {texts : List String} :
    e.longestMatch texts = none ↔
      texts = [] ∨ ∃ first rest, texts = first :: rest ∧ isBlankText first = true := by
  cases texts with
  | nil => simp [longestMatch]
  | cons first rest =>
    cases hb : isBlankText first with
    | true => simp [longestMatch, Attempt.start_of_blank hb, Attempt.empty, hb]
    | false =>
      have hl := e.longestMatch_longestName (first :: rest)
      constructor
      · intro h
        rw [h] at hl
        cases hl with
        | blank hl =>
          rw [leading_cons_of_not_blank hb] at hl
          cases hl
      · rintro (h | ⟨f, r, h, hf⟩)
        · cases h
        · cases h
          rw [hb] at hf
          cases hf

/-! ## The attempt of the resolver -/

namespace Resolver

/-- The same resolver with another strategy. -/
def withStrategy (r : Resolver) (strategy : Strategy) : Resolver :=
  { r with settings := r.settings.withStrategy strategy }

/-- Offers the texts one by one, up to the first one that is refused. -/
def offerUntilRefused (r : Resolver) : List String → Resolver
  | [] => r
  | text :: rest =>
    let step := r.exec (.offer text)
    if step.reply = .offered true then step.resolver.offerUntilRefused rest else step.resolver

/-- How a grammar finds a name: it starts with the first token and offers the others until one is
refused. A blank token starts nothing, so there is nothing to offer to. -/
def tokenByToken (r : Resolver) (first : String) (rest : List String) : Resolver :=
  let started := (r.exec (.start first)).resolver
  if isBlankText first then started else started.offerUntilRefused rest

/-- The resolver's own attempt takes the texts as any other attempt does. -/
theorem offerUntilRefused_eq (r : Resolver) (texts : List String) :
    r.offerUntilRefused texts = { r with attempt := r.attempt.absorb r.environment texts } := by
  induction texts generalizing r with
  | nil => rfl
  | cons text rest ih =>
    have hstep : (r.exec (.offer text)).resolver =
        { r with attempt := (r.attempt.offer r.environment text).2 } := rfl
    have hreply : (r.exec (.offer text)).reply =
        .offered (r.attempt.offer r.environment text).1 := rfl
    rw [offerUntilRefused, hreply, hstep, ih, Attempt.absorb]
    cases r.attempt.offer r.environment text with
    | mk accepted next => cases accepted <;> simp

/-- What was left of an earlier attempt is forgotten. -/
theorem tokenByToken_eq (r : Resolver) (first : String) (rest : List String) :
    r.tokenByToken first rest =
      { r with attempt :=
          if isBlankText first then .empty
          else (Attempt.start r.environment first).absorb r.environment rest } := by
  have hstart : (r.exec (.start first)).resolver =
      { r with attempt := .start r.environment first } := rfl
  rw [tokenByToken, hstart, offerUntilRefused_eq]
  cases hb : isBlankText first with
  | true => simp [Attempt.start_of_blank hb]
  | false => rfl

theorem tokenByToken_outcome (r : Resolver) (first : String) (rest : List String) :
    (r.tokenByToken first rest).attempt.outcome =
      r.environment.longestMatch (first :: rest) := by
  rw [tokenByToken_eq, Environment.longestMatch]
  cases hb : isBlankText first with
  | true =>
    rw [Attempt.start_of_blank hb]
    rfl
  | false =>
    rw [if_neg (Attempt.start_follows r.environment hb).count_ne_zero]
    rfl

/-- Each strategy gives the answer of the scan. -/
theorem recognize_fst (r : Resolver) (texts : List String) :
    (r.recognize texts).1 = r.environment.longestMatch texts := by
  unfold recognize
  split
  · unfold longestMatch
    split
    · rename_i h
      exact h.symm
    · rename_i h
      exact h.symm
  · exact r.environment.checkpointMatch_fst texts

/-- **Three ways to one answer.** In any state of the resolver both strategies and a grammar that
offers the tokens itself find the same name, and none exactly for no token or a blank first one.
The strategies change nothing, and what the grammar finds does not depend on the attempt that was
there before. -/
theorem recognition_agrees (r : Resolver) :
    (∀ strategy texts,
      ((r.withStrategy strategy).exec (.recognize texts)).reply =
          .found (r.environment.longestMatch texts) ∧
        ((r.withStrategy strategy).exec (.recognize texts)).resolver = r.withStrategy strategy) ∧
      (∀ first rest,
        (r.tokenByToken first rest).attempt.outcome =
            r.environment.longestMatch (first :: rest) ∧
          ∀ attempt, { r with attempt }.tokenByToken first rest = r.tokenByToken first rest) ∧
      ∀ texts, r.environment.longestMatch texts = none ↔
        texts = [] ∨ ∃ first rest, texts = first :: rest ∧ isBlankText first = true := by
  refine ⟨fun strategy texts => ⟨?_, rfl⟩, fun first rest => ⟨?_, fun attempt => ?_⟩,
    fun texts => Environment.longestMatch_eq_none_iff⟩
  · exact congrArg Reply.found ((r.withStrategy strategy).recognize_fst texts)
  · exact r.tokenByToken_outcome first rest
  · rw [tokenByToken_eq, tokenByToken_eq]

end Resolver

end SpacedNames
