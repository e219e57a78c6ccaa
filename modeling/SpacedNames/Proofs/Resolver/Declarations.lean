import SpacedNames.Proofs.Recognition.Growth
import SpacedNames.Proofs.Recognition.Strategies
import SpacedNames.Proofs.Resolver.Failures
import SpacedNames.Proofs.Source.Ranges

/-!
# Declared from source text, recognized from tokens

A declaration keeps the text of its node as it is written. Tokens have no spacing.

* `ParseTree.text_of_wordRange`: the text of a tree over neighbouring words is what the source has
  from the first to the last of them.
* `Resolver.exec_declareNode`: declaring such a tree binds this text in the current scope.
* `Resolver.declareNode_recognized`: the name is found by its spelling, and tokens with the texts of
  its words are recognized as this name.
-/

namespace SpacedNames

open Text

variable {src : Source} {i j : Nat} {first last : Token} {tree : ParseTree}

/-- The text of a tree over neighbouring words. -/
theorem ParseTree.text_of_wordRange (hij : i ≤ j) (hf : src.splitWords[i]? = some first)
    (hl : src.splitWords[j]? = some last) (ht : tree.tokens = src.wordRange i j) :
    ∃ spelling, tree.text = .ok spelling ∧
      src.slice? first.extent.start last.extent.stop = some spelling ∧
      words spelling = (src.wordRange i j).map Token.text := by
  rw [← ht]
  exact text_of_infix (ht ▸ src.wordRange_infix i j) (ht ▸ Source.head?_wordRange hij hf)
    (ht ▸ Source.getLast?_wordRange hij hl)

namespace Resolver

variable {r : Resolver}

/-- A node with a text is declared by this text. -/
theorem exec_declareNode {node : ParseTree} {spelling : String} (h : node.text = .ok spelling) :
    r.exec (.declareNode node) = r.execScopes (.declare (.declared spelling)) := by
  rw [exec, withText, h]

/-- What the resolver recognizes is what its environment matches. -/
theorem reply_recognize (r : Resolver) (texts : List String) :
    (r.exec (.recognize texts)).reply = .found (r.environment.longestMatch texts) :=
  congrArg Reply.found (r.recognize_fst texts)

/-- **What is declared from source text is recognized from tokens.** Whatever stands between the
words, the spelling is the text from the first word to the last one, and tokens with the texts of
these words, of this source or another, are recognized as this name. More tokens may lead to a
longer name, and not to a shorter one. -/
theorem declareNode_recognized (h : r.Reachable) (hij : i ≤ j)
    (hf : src.splitWords[i]? = some first) (hl : src.splitWords[j]? = some last)
    (ht : tree.tokens = src.wordRange i j) :
    ∃ spelling shadowed next,
      src.slice? first.extent.start last.extent.stop = some spelling ∧
      (r.exec (.declareNode tree)).reply = .scopes (.declared shadowed) ∧
      (r.exec (.declareNode tree)).resolver = next ∧
      next.environment.current = r.environment.current ∧
      next.environment.lookup spelling =
        some ⟨.declared spelling, next.environment.current⟩ ∧
      ∀ (strategy : Strategy) (ts : List Token),
        ts.map Token.text = (src.wordRange i j).map Token.text →
        ((next.withStrategy strategy).exec (.recognize (ts.map Token.text))).reply =
          .found (some ⟨j - i + 1, joined (ts.map Token.text),
            some ⟨.declared spelling, next.environment.current⟩⟩) ∧
        ∀ more : List Token, ∃ m,
          ((next.withStrategy strategy).exec (.recognize ((ts ++ more).map Token.text))).reply =
            .found (some m) ∧ m.isDeclared = true ∧ j - i + 1 ≤ m.len := by
  obtain ⟨spelling, htext, hslice, hwords⟩ := ParseTree.text_of_wordRange hij hf hl ht
  refine ⟨spelling, _, _, hslice, congrArg Step.reply (exec_declareNode htext), rfl, ?_⟩
  rw [exec_declareNode htext]
  have hchain := h.chained
  refine ⟨rfl, hchain.lookup_declare (.declared spelling), fun strategy ts hts => ?_⟩
  -- The texts of the tokens are words, so none of them is blank or has several words.
  have hlen : (ts.map Token.text).length = j - i + 1 := by
    rw [hts, List.length_map, Source.length_wordRange hij hl]
  have hne : ts.map Token.text ≠ [] := by
    rw [Ne, ← List.length_eq_zero_iff, hlen]
    exact Nat.succ_ne_zero _
  rw [← hwords] at hts
  have hblank : ∀ t ∈ ts.map Token.text, isBlankText t = false := by
    rw [hts]
    exact fun t => not_blank_of_mem_words
  have hphrase : phrase (ts.map Token.text) = words spelling := by
    rw [hts, phrase_words]
  obtain ⟨hmatch, hlonger⟩ :=
    hchain.longestMatch_declare (.declared spelling) hne hblank hphrase
  rw [hlen] at hmatch hlonger
  refine ⟨?_, fun more => ?_⟩
  · rw [reply_recognize]
    exact congrArg Reply.found hmatch
  · obtain ⟨m, hm, hdeclared, hle⟩ := hlonger (more.map Token.text)
    refine ⟨m, ?_, hdeclared, hle⟩
    rw [reply_recognize, List.map_append]
    exact congrArg Reply.found hm

/-- A source with wide spaces between its words. -/
def wideSource : Source :=
  ⟨1, "  à\u3000 payer\tx "⟩

/-- A tree over the first two words of `wideSource`, with branches that hold none. -/
def wideNode : ParseTree :=
  .branch "name" [.branch "none" [], .branch "part" [.terminal ⟨"à", ⟨2, 4⟩, wideSource⟩],
    .branch "part" [.branch "none" [], .terminal ⟨"payer", ⟨8, 13⟩, wideSource⟩], .branch "none" []]

/-- The name takes the place of the one with its words, and is found by its own spelling. -/
theorem declareNode_recognized_wide :
    Reachable ((ofSettings {}).run [.openScope, .declare "à payer"]) ∧
    wideSource.splitWords[0]? = some ⟨"à", ⟨2, 4⟩, wideSource⟩ ∧
    wideSource.splitWords[1]? = some ⟨"payer", ⟨8, 13⟩, wideSource⟩ ∧
    wideNode.tokens = wideSource.wordRange 0 1 ∧
    (((ofSettings {}).run [.openScope, .declare "à payer"]).exec
        (.declareNode wideNode)).resolver.environment.lookup "à\u3000 payer" =
      some ⟨.declared "à\u3000 payer", ⟨2, 2⟩⟩ ∧
    (((((ofSettings {}).run [.openScope, .declare "à payer"]).exec
        (.declareNode wideNode)).resolver.withStrategy .checkpoint).exec
          (.recognize ((Source.splitWords ⟨2, "à payer"⟩).map Token.text))).reply =
      .found (some ⟨2, "à payer", some ⟨.declared "à\u3000 payer", ⟨2, 2⟩⟩⟩) := by
  have hr : Reachable ((ofSettings {}).run [.openScope, .declare "à payer"]) := ⟨_, _, rfl⟩
  have hfirst : wideSource.splitWords[0]? = some ⟨"à", ⟨2, 4⟩, wideSource⟩ := by decide +kernel
  have hlast : wideSource.splitWords[1]? = some ⟨"payer", ⟨8, 13⟩, wideSource⟩ := by
    decide +kernel
  have htree : wideNode.tokens = wideSource.wordRange 0 1 := by decide +kernel
  obtain ⟨spelling, _, next, hslice, -, rfl, hcurrent, hlookup, hfound⟩ :=
    declareNode_recognized hr (Nat.le_succ 0) hfirst hlast htree
  have hwide : wideSource.slice? 2 13 = some "à\u3000 payer" := by decide +kernel
  have hspelling : spelling = "à\u3000 payer" := Option.some.inj (hslice.symm.trans hwide)
  rw [hspelling, hcurrent] at hlookup hfound
  have htexts : (Source.splitWords ⟨2, "à payer"⟩).map Token.text = ["à", "payer"] := by
    decide +kernel
  have hwords : (wideSource.wordRange 0 1).map Token.text = ["à", "payer"] := by decide +kernel
  have hanswer := (hfound .checkpoint _ (htexts.trans hwords.symm)).1
  rw [htexts] at hanswer ⊢
  exact ⟨hr, hfirst, hlast, htree, hlookup, hanswer⟩

end Resolver

end SpacedNames
