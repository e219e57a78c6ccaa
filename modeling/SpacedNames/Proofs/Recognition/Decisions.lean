import Mathlib.Order.Bounds.Defs
import SpacedNames.Proofs.Recognition.Strategies
import SpacedNames.Proofs.Text.Quoted

/-!
# What a recognition tells

* `Environment.Reaches e texts k`: the first `k` texts can be taken. Either it is the first one alone,
  or their words lead to a visible name; none of them is blank. How far a recognition goes is the
  greatest such `k` (`Parts.isGreatest_reaches`): what leads to a name does so from its first word on,
  so nothing is reached behind a text that is refused.
* `Environment.decisions`: the start, the texts that are accepted, the one that is refused, and the
  answer. `checkpointMatch_of_not_blank`: a recognition by checkpoints tells just these.
* `Session.Tells`: how a command is answered, and the decisions that come to the sink with it.
* `Session.recognition_told`: what comes to the sink of a session with a recognition.

The texts of a trace come from the source as they are. Each stands between quotation marks in its line,
so it can neither end the line nor be taken for the rest of it.

* `Decision.toList_line`: a line is a lead that tells the kind of the decision, the quoted text, and
  a trail.
* `Decision.line_injective`: the line tells the decision.
* `Decision.render_tells`: a rendered trace has the lines of its decisions, and no other trace has
  the same text.
-/

namespace SpacedNames

open Text

/-! ## How far a recognition goes -/

/-- The answer of an attempt takes no more than the texts that were accepted. -/
theorem Attempt.Follows.exists_outcome {a : Attempt} {e : Environment} {first : String}
    {more : List String} (h : a.Follows e first more) :
    ∃ m, a.outcome = some m ∧ m.len ≤ more.length + 1 := by
  refine ⟨_, h.outcome, ?_⟩
  have hlong := h.longest
  cases hc : a.confirmed with
  | none => exact Nat.le_add_left _ _
  | some found =>
    rw [hc] at hlong
    exact hlong.2.1

namespace Environment

variable {e : Environment} {first : String} {taken left rest : List String}

/-- The first `k` texts can be taken. -/
def Reaches (e : Environment) (texts : List String) (k : Nat) : Prop :=
  0 < k ∧ k ≤ (leading texts).length ∧ (k = 1 ∨ e.Leads (phrase (texts.take k)))

/-- **The texts that are accepted are the most that can be taken.** -/
theorem Parts.isGreatest_reaches (h : e.Parts first [] taken left)
    (hb : isBlankText first = false) :
    IsGreatest {k | e.Reaches (first :: taken ++ left) k} (taken.length + 1) := by
  have hacc := h.acc_not_blank hb
  constructor
  · refine ⟨Nat.succ_pos _, ?_, ?_⟩
    · rw [leading_append hacc, List.length_append, List.length_cons]
      exact Nat.le_add_right _ _
    · cases taken with
      | nil => exact .inl rfl
      | cons t taken =>
        have htake : (first :: t :: taken ++ left).take ((t :: taken).length + 1) =
            first :: t :: taken := List.take_left' rfl
        rw [htake]
        exact .inr (h.leads (List.cons_ne_nil _ _))
  · rintro k ⟨-, hle, hone | hleads⟩
    · omega
    · exact Nat.not_lt.mp fun hlt => not_leads_of_stop hacc h.stops hlt hle hleads

/-! ## The decisions -/

/-- The decisions of a recognition that takes `k` of the texts and answers `m`: the start with the
first text, one more for each text that is accepted, one for the next text if there is any, and the
answer. -/
def decisions (first : String) (rest : List String) (k : Nat) (m : Match) : List Decision :=
  .started first ::
    (((first :: rest).take k).tail.map (.offered · true) ++
      (first :: rest)[k]?.toList.map (.offered · false)) ++
    [.matched m.text m.len m.isDeclared]

theorem decisions_append (first : String) (taken left : List String) (m : Match) :
    decisions first (taken ++ left) (taken.length + 1) m =
      .started first :: Attempt.told taken left ++ [m.decision] := by
  have htake : (taken ++ left).take taken.length = taken := List.take_left
  have hnext : (taken ++ left)[taken.length]? = left.head? := by
    rw [List.getElem?_append_right (Nat.le_refl _), Nat.sub_self, List.head?_eq_getElem?]
  rw [decisions, Attempt.told, List.take_succ_cons, List.tail_cons, List.getElem?_cons_succ, htake,
    hnext]
  rfl

/-- **A recognition by checkpoints tells how far it goes**, and what it answers. -/
theorem checkpointMatch_of_not_blank (e : Environment) (hb : isBlankText first = false)
    (rest : List String) :
    ∃ k m, IsGreatest {j | e.Reaches (first :: rest) j} k ∧ m.len ≤ k ∧
      e.checkpointMatch (first :: rest) = (some m, decisions first rest k m) := by
  have hs := Attempt.start_follows e hb
  obtain ⟨taken, left, rfl, hp, hf, hd⟩ := hs.offerAll rest
  rw [List.nil_append] at hf
  obtain ⟨m, hm, hlen⟩ := hf.exists_outcome
  refine ⟨taken.length + 1, m, hp.isGreatest_reaches hb, hlen, ?_⟩
  rw [checkpointMatch, if_neg hs.count_ne_zero, decisions_append, ← hd]
  simp only [hm]

theorem checkpointMatch_of_longestMatch_eq_none {texts : List String}
    (h : e.longestMatch texts = none) : e.checkpointMatch texts = (none, []) := by
  rcases longestMatch_eq_none_iff.mp h with rfl | ⟨first, rest, rfl, hb⟩
  · rfl
  · rw [checkpointMatch, Attempt.start_of_blank hb]
    rfl

end Environment

/-! ## What a resolver sends -/

namespace Resolver

variable {r : Resolver} {sink : Sink}

theorem sent_of_sink (hs : r.sink = some sink) (ds : List Decision) : r.sent ds = ds := by
  rw [sent, isTracing, hs]
  rfl

theorem recognize_of_checkpoint (hs : r.sink = some sink)
    (h : r.settings.strategy = .checkpoint) (texts : List String) :
    r.recognize texts = r.environment.checkpointMatch texts := by
  rw [recognize, h]
  exact congrArg (Prod.mk _) (sent_of_sink hs _)

theorem recognize_of_lookahead (h : r.settings.strategy = .lookahead) (texts : List String) :
    r.recognize texts = r.longestMatch texts := by
  rw [recognize, h]

/-- Looking ahead tells the answer and nothing else. -/
theorem longestMatch_of_sink (hs : r.sink = some sink) (texts : List String) :
    r.longestMatch texts = (r.environment.longestMatch texts,
      (r.environment.longestMatch texts).toList.map Match.decision) := by
  unfold longestMatch
  cases r.environment.longestMatch texts with
  | none => rfl
  | some found => exact congrArg (Prod.mk _) (sent_of_sink hs _)

end Resolver

/-! ## What comes to the sink -/

namespace Session

variable {s : Session} {sink : Sink} {texts : List String} {answer : Option Match}
  {ds : List Decision}

/-- The command is answered so, exactly these decisions come to the sink with it, and no other
sink takes any. -/
structure Tells (s : Session) (sink : Sink) (command : Resolver.Command) (answer : Option Match)
    (ds : List Decision) : Prop where
  reply : (s.exec command).2.1 = .found answer
  recorded : (s.exec command).1.recorded = s.recorded ++ if sink = .recorder then ds else []
  heard : (s.exec command).1.heard = s.heard ++ if sink = .listener then ds else []
  logged : (s.exec command).2.2 = if sink = .log then ds.map .decided else []

/-- What the resolver sends comes to the sink. -/
theorem tells_of_exec (hs : s.resolver.sink = some sink) {command : Resolver.Command}
    (h : s.resolver.exec command =
      { resolver := s.resolver, reply := .found answer, decisions := ds }) :
    s.Tells sink command answer ds := by
  cases sink <;> constructor <;> simp [exec, hs, h]

theorem tells_recognize (hs : s.resolver.sink = some sink)
    (h : s.resolver.recognize texts = (answer, ds)) :
    s.Tells sink (.recognize texts) answer ds := by
  refine tells_of_exec hs ?_
  rw [Resolver.exec, h]

theorem tells_longestMatch (hs : s.resolver.sink = some sink)
    (h : s.resolver.environment.longestMatch texts = answer) :
    s.Tells sink (.longestMatch texts) answer (answer.toList.map Match.decision) := by
  refine tells_of_exec hs ?_
  rw [Resolver.exec, Resolver.longestMatch_of_sink hs, h]

/-- **A recognition tells what was decided**, in any session with a sink. For no text or a blank first
one there is no answer, and nothing is told. Else it goes as far as texts can be taken. By checkpoints
it tells the start, each text that is accepted, the one that is refused, if there is any left, and the
answer, which takes no more than was accepted. Looking ahead it tells the answer alone. -/
theorem recognition_told (s : Session) (hs : s.resolver.sink = some sink) :
    (∀ texts, (texts = [] ∨ ∃ first rest, texts = first :: rest ∧ isBlankText first = true) →
      s.Tells sink (.recognize texts) none [] ∧ s.Tells sink (.longestMatch texts) none []) ∧
    ∀ first rest, isBlankText first = false →
      ∃ k m, IsGreatest {j | s.resolver.environment.Reaches (first :: rest) j} k ∧ m.len ≤ k ∧
        (s.resolver.settings.strategy = .checkpoint →
          s.Tells sink (.recognize (first :: rest)) (some m)
            (Environment.decisions first rest k m)) ∧
        (s.resolver.settings.strategy = .lookahead →
          s.Tells sink (.recognize (first :: rest)) (some m)
            [.matched m.text m.len m.isDeclared]) ∧
        s.Tells sink (.longestMatch (first :: rest)) (some m)
          [.matched m.text m.len m.isDeclared] := by
  constructor
  · intro texts hblank
    have hnone := Environment.longestMatch_eq_none_iff (e := s.resolver.environment) |>.mpr hblank
    have hlong := tells_longestMatch hs hnone
    refine ⟨tells_recognize hs ?_, hlong⟩
    cases hstrategy : s.resolver.settings.strategy with
    | lookahead =>
      rw [Resolver.recognize_of_lookahead hstrategy, Resolver.longestMatch_of_sink hs, hnone]
      rfl
    | checkpoint =>
      rw [Resolver.recognize_of_checkpoint hs hstrategy]
      exact Environment.checkpointMatch_of_longestMatch_eq_none hnone
  · intro first rest hb
    obtain ⟨k, m, hk, hlen, hm⟩ :=
      s.resolver.environment.checkpointMatch_of_not_blank hb rest
    have hlong : s.resolver.environment.longestMatch (first :: rest) = some m := by
      rw [← Environment.checkpointMatch_fst, hm]
    refine ⟨k, m, hk, hlen, fun hstrategy => tells_recognize hs ?_,
      fun hstrategy => tells_recognize hs ?_, tells_longestMatch hs hlong⟩
    · rw [Resolver.recognize_of_checkpoint hs hstrategy, hm]
    · rw [Resolver.recognize_of_lookahead hstrategy, Resolver.longestMatch_of_sink hs, hlong]
      rfl

/-- The first two texts are a name, and the third one is refused. -/
theorem recognition_told_refused :
    let s : Session :=
      { resolver := (Resolver.ofSettings { builtins := ["total cost"], strategy := .checkpoint
          }).withSink (some .recorder) }
    s.resolver.sink = some .recorder ∧ isBlankText "total" = false ∧
    s.resolver.settings.strategy = .checkpoint ∧
    ∃ k m, IsGreatest {j | s.resolver.environment.Reaches ["total", "cost", "due"] j} k ∧
      m.len ≤ k ∧ s.Tells .recorder (.recognize ["total", "cost", "due"]) (some m)
        (Environment.decisions "total" ["cost", "due"] k m) := by
  intro s
  have hs : s.resolver.sink = some .recorder := rfl
  have hb : isBlankText "total" = false := by decide +kernel
  obtain ⟨k, m, hk, hlen, htold, -⟩ :=
    (recognition_told s hs).2 "total" ["cost", "due"] hb
  exact ⟨hs, hb, rfl, k, m, hk, hlen, htold rfl⟩

example : ((Session.mk ((Resolver.ofSettings { builtins := ["total cost"], strategy := .checkpoint
      }).withSink (some .recorder)) [] []).exec (.recognize ["total", "cost", "due"])).1.recorded =
    [.started "total", .offered "cost" true, .offered "due" false,
      .matched "total cost" 2 true] := by
  decide +kernel

end Session

/-! ## The parts of a line -/

namespace Decision

/-- The text that was decided on. -/
def text : Decision → String
  | started text | offered text _ | matched text _ _ => text

/-- What the line starts with. -/
def lead : Decision → String
  | started _ => "start "
  | offered _ _ => "  follow "
  | matched _ _ _ => "match "

/-- What the line has behind the quoted text. -/
def trail : Decision → String
  | started _ => ""
  | offered _ accepted => if accepted then " -> keep" else " -> stop"
  | matched _ len declared => s!" ({len} tokens, " ++ if declared then "declared)" else "undeclared)"

theorem toList_line (d : Decision) :
    d.line.toList = d.lead.toList ++ ((quoted d.text).toList ++ d.trail.toList) := by
  cases d with
  | started text => simp [line, lead, trail, Decision.text]
  | offered text accepted => cases accepted <;> simp [line, lead, trail, Decision.text]
  | matched text len declared => cases declared <;> simp [line, lead, trail, Decision.text]

theorem newline_not_mem_line (d : Decision) : '\n' ∉ d.line.toList := by
  have hlead : '\n' ∉ d.lead.toList := by cases d <;> simp [lead]
  have htrail : '\n' ∉ d.trail.toList := by
    cases d with
    | started _ => simp [trail]
    | offered _ accepted => cases accepted <;> simp [trail]
    | matched _ len declared => cases declared <;> simp [trail, newline_not_mem_toDigits]
  simp [toList_line, hlead, htrail, newline_not_mem_quoted]

/-! ## What a line tells -/

theorem toList_trail_matched (text : String) (len : Nat) (declared : Bool) :
    (matched text len declared).trail.toList = " (".toList ++ (Nat.toDigits 10 len ++ [' '] ++
      ("tokens, ".toList ++ (if declared then "declared)" else "undeclared)").toList)) := by
  simp [trail]

theorem trail_matched_inj {text text' : String} {len len' : Nat} {declared declared' : Bool}
    (h : (matched text len declared).trail = (matched text' len' declared').trail) :
    len = len' ∧ declared = declared' := by
  have hchars := congrArg String.toList h
  rw [toList_trail_matched, toList_trail_matched] at hchars
  obtain ⟨rfl, hrest⟩ := selfDelimiting_number _ _ _ _ (List.append_cancel_left hchars)
  refine ⟨rfl, ?_⟩
  cases declared <;> cases declared' <;> simp at hrest ⊢

/-- The three parts of the line tell all of the decision. -/
theorem eq_of_parts {d d' : Decision} (hlead : d.lead = d'.lead) (htext : d.text = d'.text)
    (htrail : d.trail = d'.trail) : d = d' := by
  cases d with
  | started a =>
    cases d' with
    | started b => exact congrArg started htext
    | offered _ _ | matched _ _ _ => simp [lead] at hlead
  | offered a accepted =>
    cases d' with
    | offered b accepted' =>
      obtain rfl : a = b := htext
      cases accepted <;> cases accepted' <;> simp [trail] at htrail ⊢
    | started _ | matched _ _ _ => simp [lead] at hlead
  | matched a len declared =>
    cases d' with
    | matched b len' declared' =>
      obtain rfl : a = b := htext
      obtain ⟨rfl, rfl⟩ := trail_matched_inj htrail
      rfl
    | started _ | offered _ _ => simp [lead] at hlead

/-- **A line tells its decision**, whatever the text holds. -/
theorem line_injective : Function.Injective line := by
  intro d d' h
  have hchars := congrArg String.toList h
  rw [toList_line, toList_line] at hchars
  -- The first character already tells the kind, before the text is read.
  have hlead : d.lead = d'.lead := by
    cases d <;> cases d' <;> first | rfl | simp [lead] at hchars
  rw [hlead] at hchars
  obtain ⟨htext, htrail⟩ := selfDelimiting_quoted _ _ _ _ (List.append_cancel_left hchars)
  exact eq_of_parts hlead htext (String.toList_injective htrail)

/-! ## The trace -/

theorem toList_render (ds : List Decision) :
    (render ds).toList = ended (ds.map (·.line.toList)) := by
  simp [render, ended, String.toList_join, List.flatMap_map]

/-- Each decision has one line of its own. -/
theorem inLines_render (ds : List Decision) :
    InLines (render ds).toList (ds.map (·.line.toList)) := by
  rw [toList_render, inLines_ended_iff]
  simp [newline_not_mem_line]

/-- **A rendered trace can be read back.** It has one line for each decision, as many line ends as
decisions, and no other trace is rendered as the same text. -/
theorem render_tells (ds : List Decision) :
    InLines (render ds).toList (ds.map (·.line.toList)) ∧
    (render ds).toList.count '\n' = ds.length ∧
    ∀ ds', render ds' = render ds ↔ ds' = ds := by
  have hlines := inLines_render ds
  refine ⟨hlines, ?_, fun ds' => ⟨fun h => ?_, fun h => congrArg render h⟩⟩
  · rw [← hlines.length_eq, List.length_map]
  · have hlines' := inLines_render ds'
    rw [h] at hlines'
    refine (List.map_inj_right fun d d' hd => ?_).mp (hlines'.unique hlines)
    exact line_injective (String.toList_injective hd)

/-- A text that looks like the end of its line is still one text. -/
example : render [.started "a\" -> keep\nb", .offered "\\n" false] =
    "start \"a\\\" -> keep\\nb\"\n  follow \"\\\\n\" -> stop\n" := by
  decide +kernel

end Decision

end SpacedNames
