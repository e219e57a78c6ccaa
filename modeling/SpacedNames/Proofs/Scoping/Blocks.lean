import Mathlib.Data.List.Infix
import SpacedNames.Proofs.Recognition.LongestMatch
import SpacedNames.Proofs.Scoping.Registry

/-!
# Blocks

A grammar opens a scope for a construct, and what stands inside opens, closes and declares as it
likes. When the scope is closed, the scopes are those from before.

* `Environment.KeepsOpen commands`: the commands leave the scope open that is current when they
  begin. This is told by counting; `keepsOpen_iff_depth` tells it by the depth of the run.
* `Environment.Inside e label n e'`: the scopes of `e` are as they were, the one that was opened with
  the label is above them, and above it there are `n` others. A command that does not close the
  opened scope keeps this (`Inside.exec`), and so does a run (`KeepsOpen.run_inside`).
* `Inside.exec_closeScope`: from there, closing the opened scope leads back to the scopes of `e`.
* `Environment.Block`: a run that opens a scope and closes it at its end. `run_block`: what a block
  leaves behind.
-/

namespace SpacedNames

/-- The scope is the one that was made with these; only names were bound in it since. -/
structure Scope.MadeWith (s : Scope) (handle : Handle) (label : String)
    (parent : Option Handle) : Prop where
  handle_eq : s.handle = handle
  label_eq : s.label = label
  parent_eq : s.parent = parent

theorem Scope.MadeWith.bind {s : Scope} {handle : Handle} {label : String}
    {parent : Option Handle} (h : s.MadeWith handle label parent) (n : Name) :
    (s.bind n).MadeWith handle label parent :=
  ⟨h.handle_eq, h.label_eq, h.parent_eq⟩

namespace Environment

variable {e e' : Environment} {label : String} {commands inside : List Command}

/-! ## Counting what is opened and closed -/

/-- Does the command open a scope? -/
def Command.opens : Command → Bool
  | .openScope _ => true
  | .closeScope | .declare _ => false

/-- Does the command close a scope? -/
def Command.closes : Command → Bool
  | .closeScope => true
  | .openScope _ | .declare _ => false

/-- How many of the commands open a scope. -/
def openings (commands : List Command) : Nat :=
  commands.countP Command.opens

/-- How many of the commands close a scope. -/
def closings (commands : List Command) : Nat :=
  commands.countP Command.closes

theorem openings_append (xs ys : List Command) :
    openings (xs ++ ys) = openings xs + openings ys :=
  List.countP_append

theorem closings_append (xs ys : List Command) :
    closings (xs ++ ys) = closings xs + closings ys :=
  List.countP_append

theorem nextSerial_exec (e : Environment) (command : Command) :
    (e.exec command).environment.scopes.nextSerial =
      e.scopes.nextSerial + openings [command] := by
  cases command with
  | openScope label => rfl
  | closeScope =>
    rw [exec]
    split
    · rename_i h
      exact (closeScope_ok h).2
    · rfl
  | declare name => exact e.scopes.modify_nextSerial e.current (·.bind name)

/-- The next serial tells how many scopes were opened. -/
theorem nextSerial_run (e : Environment) (commands : List Command) :
    (e.run commands).scopes.nextSerial = e.scopes.nextSerial + openings commands := by
  induction commands generalizing e with
  | nil => rfl
  | cons command rest ih =>
    rw [run_cons, ih, nextSerial_exec, Nat.add_assoc, ← openings_append, List.singleton_append]

/-- No part of the commands closes more scopes than it opens: the scope that is current when they
begin stays open. -/
def KeepsOpen (commands : List Command) : Prop :=
  ∀ part, part <+: commands → closings part ≤ openings part

instance : DecidablePred KeepsOpen := fun commands =>
  decidable_of_iff (∀ part ∈ commands.inits, closings part ≤ openings part) <| by
    simp only [KeepsOpen, List.mem_inits]

theorem keepsOpen_nil : KeepsOpen [] := by
  intro part hp
  rw [List.prefix_nil.mp hp]
  exact Nat.le_refl _

theorem KeepsOpen.of_prefix (h : KeepsOpen commands) {part : List Command}
    (hp : part <+: commands) : KeepsOpen part :=
  fun _ hq => h _ (hq.trans hp)

theorem keepsOpen_concat_iff {command : Command} : KeepsOpen (commands ++ [command]) ↔
    KeepsOpen commands ∧ closings (commands ++ [command]) ≤ openings (commands ++ [command]) := by
  constructor
  · intro h
    exact ⟨h.of_prefix (List.prefix_append _ _), h _ (List.prefix_refl _)⟩
  · rintro ⟨h, hall⟩ part hp
    rcases List.prefix_concat_iff.mp hp with rfl | hp
    · exact hall
    · exact h part hp

/-- Commands that do not keep the scope open come to the point where they close it. -/
theorem exists_closing_of_not_keepsOpen (h : ¬ KeepsOpen commands) :
    ∃ part rest, commands = part ++ .closeScope :: rest ∧ KeepsOpen part ∧
      closings part = openings part := by
  induction commands using List.reverseRecOn with
  | nil => exact absurd keepsOpen_nil h
  | append_singleton commands command ih =>
    by_cases hk : KeepsOpen commands
    · have hle := hk commands (List.prefix_refl _)
      have hlt : ¬ closings (commands ++ [command]) ≤ openings (commands ++ [command]) :=
        fun hle' => h (keepsOpen_concat_iff.mpr ⟨hk, hle'⟩)
      rw [closings_append, openings_append] at hlt
      cases command with
      | closeScope =>
        have hone : closings [.closeScope] = 1 ∧ openings [.closeScope] = 0 := ⟨rfl, rfl⟩
        exact ⟨commands, [], rfl, hk, by omega⟩
      | openScope label =>
        have hnone : closings [.openScope label] = 0 := rfl
        omega
      | declare name =>
        have hnone : closings [.declare name] = 0 := rfl
        omega
    · obtain ⟨part, rest, rfl, hpart, hcount⟩ := ih hk
      exact ⟨part, rest ++ [command], by simp, hpart, hcount⟩

/-! ## Inside a scope -/

/-- `e'` is inside a scope that was opened in `e` with the label: the scopes of `e` are as they were,
and above the opened one there are `n` others. -/
structure Inside (e : Environment) (label : String) (n : Nat) (e' : Environment) : Prop where
  chained : e'.Chained
  scopes : ∃ s above, e'.scopes.toList = e.scopes.toList ++ s :: above ∧
    s.MadeWith (e.openScope label).1 label (some e.current) ∧ above.length = n

theorem Chained.inside_openScope (h : e.Chained) (label : String) :
    Inside e label 0 (e.openScope label).2 :=
  ⟨h.openScope label, _, [], rfl, ⟨rfl, rfl, rfl⟩, rfl⟩

/-- **The scopes outside are left alone.** Each command acts on the last scope, which is the opened
one or one above it. -/
theorem Inside.exec {n : Nat} (h : Inside e label n e') (command : Command)
    (hc : command = .closeScope → n ≠ 0) :
    ∃ m, Inside e label m (e'.exec command).environment ∧
      m + closings [command] = n + openings [command] := by
  have hnext := h.chained.exec command
  obtain ⟨s, above, hl, hs, hn⟩ := h.scopes
  cases command with
  | openScope inner =>
    obtain ⟨new, hnew⟩ : ∃ new, (e'.openScope inner).2.scopes.toList = e'.scopes.toList ++ [new] :=
      ⟨_, rfl⟩
    refine ⟨n + 1, ⟨hnext, s, above ++ [new], ?_, hs, by rw [List.length_append, hn]; rfl⟩, rfl⟩
    rw [← List.cons_append, ← List.append_assoc, ← hl]
    exact hnew
  | closeScope =>
    have hne : above ≠ [] := by
      rintro rfl
      exact hc rfl hn.symm
    obtain ⟨front, last, rfl⟩ : ∃ front last, above = front ++ [last] :=
      ⟨_, _, (List.dropLast_concat_getLast hne).symm⟩
    rw [← List.cons_append, ← List.append_assoc] at hl
    obtain ⟨next, he, hfront⟩ := h.chained.exec_closeScope_concat hl (by simp)
    rw [he] at hnext ⊢
    refine ⟨front.length, ⟨hnext, s, front, hfront, hs, rfl⟩, ?_⟩
    rw [← hn, List.length_append]
    rfl
  | declare name =>
    rcases List.eq_nil_or_concat above with rfl | ⟨front, last, rfl⟩
    · refine ⟨n, ⟨hnext, s.bind name, [], ?_, hs.bind name, hn⟩, rfl⟩
      exact h.chained.toList_declare_concat hl name
    · rw [List.concat_eq_append] at hl hn
      refine ⟨n, ⟨hnext, s, front ++ [last.bind name], ?_, hs, by simpa using hn⟩, rfl⟩
      rw [← List.cons_append, ← List.append_assoc] at hl ⊢
      exact h.chained.toList_declare_concat hl name

theorem run_open_concat (e : Environment) (label : String) (inside : List Command)
    (command : Command) : e.run (.openScope label :: (inside ++ [command])) =
      ((e.run (.openScope label :: inside)).exec command).environment := by
  rw [← List.cons_append, run_append]
  rfl

/-- **A run that keeps the opened scope open stays inside it.** -/
theorem KeepsOpen.run_inside (hk : KeepsOpen inside) (h : e.Chained) (label : String) :
    ∃ n, Inside e label n (e.run (.openScope label :: inside)) ∧
      n + closings inside = openings inside := by
  induction inside using List.reverseRecOn with
  | nil => exact ⟨0, h.inside_openScope label, rfl⟩
  | append_singleton inside command ih =>
    obtain ⟨hk, hall⟩ := keepsOpen_concat_iff.mp hk
    obtain ⟨n, hin, hn⟩ := ih hk
    rw [closings_append, openings_append] at hall
    have hc : command = .closeScope → n ≠ 0 := by
      rintro rfl rfl
      have hone : closings [.closeScope] = 1 ∧ openings [.closeScope] = 0 := ⟨rfl, rfl⟩
      omega
    obtain ⟨m, hin, hm⟩ := hin.exec command hc
    rw [run_open_concat, closings_append, openings_append]
    exact ⟨m, hin, by omega⟩

theorem Inside.depth_eq {n : Nat} (h : Inside e label n e') (hc : e.Chained) :
    e'.depth = e.depth + 1 + n := by
  obtain ⟨s, above, hl, -, hn⟩ := h.scopes
  have hsize : e'.scopes.size = e.scopes.size + (n + 1) := by
    rw [ScopeStack.size, hl, List.length_append, List.length_cons, hn]
    rfl
  have hd := hc.depth_add_one
  have hd' := h.chained.depth_add_one
  omega

/-- **The opened scope is given back**, and the scopes are those from before. -/
theorem Inside.exec_closeScope (h : Inside e label 0 e') (hc : e.Chained) :
    ∃ s next, e'.exec .closeScope = ⟨next, .closed s, [.scopeClosed s]⟩ ∧
      s.MadeWith (e.openScope label).1 label (some e.current) ∧
      next.scopes.toList = e.scopes.toList ∧ next.current = e.current := by
  have hnext := h.chained.exec .closeScope
  obtain ⟨s, above, hl, hs, hn⟩ := h.scopes
  rw [List.length_eq_zero_iff.mp hn] at hl
  obtain ⟨next, he, hfront⟩ := h.chained.exec_closeScope_concat hl (List.cons_ne_nil _ _)
  rw [he] at hnext
  refine ⟨s, next, he, hs, hfront, ?_⟩
  obtain ⟨front, hlast⟩ := e.scopes.exists_toList_concat
  rw [← hnext.current, ← hc.current, ScopeStack.innermost_of_toList (hfront.trans hlast)]

/-- The opened scope stays open exactly as long as the run does not go back to the depth before. -/
theorem keepsOpen_iff_depth (h : e.Chained) (label : String) : KeepsOpen inside ↔
    ∀ part, part <+: inside → e.depth < (e.run (.openScope label :: part)).depth := by
  constructor
  · intro hk part hp
    obtain ⟨n, hin, -⟩ := (hk.of_prefix hp).run_inside h label
    rw [hin.depth_eq h]
    omega
  · intro hd
    by_contra hk
    obtain ⟨part, rest, rfl, hpart, hcount⟩ := exists_closing_of_not_keepsOpen hk
    obtain ⟨n, hin, hn⟩ := hpart.run_inside h label
    obtain rfl : n = 0 := by omega
    obtain ⟨s, next, he, -, -, hcurrent⟩ := hin.exec_closeScope h
    have hback := hd (part ++ [.closeScope]) ⟨rest, by simp⟩
    rw [run_open_concat, he, depth, depth, hcurrent] at hback
    exact Nat.lt_irrefl _ hback

/-! ## Blocks -/

/-- Opens a scope, and closes it at the end. -/
def block (label : String) (inside : List Command) : List Command :=
  .openScope label :: inside ++ [.closeScope]

/-- The commands inside never go back to the depth that `e` has, and the last one of the block
does. -/
structure Block (e : Environment) (label : String) (inside : List Command) : Prop where
  stays : ∀ part, part <+: inside → e.depth < (e.run (.openScope label :: part)).depth
  returns : (e.run (block label inside)).depth = e.depth

/-- The two environments have one list of live scopes, and every question about names and scopes has
one answer in both. -/
structure SameScopes (e e' : Environment) : Prop where
  toList : e'.scopes.toList = e.scopes.toList
  current : e'.current = e.current
  path : ∀ h, e'.scopes.pathOf h = e.scopes.pathOf h
  lookup : ∀ spelling, e'.lookup spelling = e.lookup spelling
  standing : ∀ candidate, e'.standing candidate = e.standing candidate
  longestMatch : ∀ texts, e'.longestMatch texts = e.longestMatch texts

/-- The live scopes and the current one tell all the rest. -/
theorem sameScopes_of_toList (hl : e'.scopes.toList = e.scopes.toList)
    (hc : e'.current = e.current) : SameScopes e e' := by
  have hvisible : e'.visible = e.visible := by
    rw [visible, visible, hc, ScopeStack.ancestors_congr hl]
  have hstanding : ∀ candidate, e'.standing candidate = e.standing candidate := by
    intro candidate
    rw [Environment.standing, hvisible, Environment.standing]
  refine ⟨hl, hc, fun h => ?_, fun spelling => ?_, hstanding, longestMatch_congr hstanding⟩
  · rw [ScopeStack.pathOf, ScopeStack.ancestors_congr hl, ScopeStack.pathOf]
  · rw [Environment.lookup, hvisible, Environment.lookup]

theorem Block.keepsOpen (hb : e.Block label inside) (h : e.Chained) : KeepsOpen inside :=
  (keepsOpen_iff_depth h label).mpr hb.stays

theorem run_block_eq (e : Environment) (label : String) (inside : List Command) :
    e.run (block label inside) =
      ((e.run (.openScope label :: inside)).exec .closeScope).environment :=
  run_open_concat e label inside .closeScope

/-- Before its last command a block has closed all that it opened inside. -/
theorem Block.run_inside (hb : e.Block label inside) (h : e.Chained) :
    Inside e label 0 (e.run (.openScope label :: inside)) := by
  obtain ⟨n, hin, -⟩ := (hb.keepsOpen h).run_inside h label
  by_cases hn : n = 0
  · exact hn ▸ hin
  · obtain ⟨m, hafter, hm⟩ := hin.exec .closeScope fun _ => hn
    have hdepth := hafter.depth_eq h
    rw [← run_block_eq, hb.returns] at hdepth
    omega

/-- **A block restores the scopes.** Whatever is opened, closed and declared inside, the live scopes
are those from before, with all that they hold. The scope that is closed at the end is the one that
was opened first. What remains is in the registry and in the serials. -/
theorem run_block {fresh : Environment} {builtins : List String} (h : Fresh builtins fresh)
    (earlier : List Command) {label : String} {inside : List Command}
    (hb : (fresh.run earlier).Block label inside) :
    SameScopes (fresh.run earlier) ((fresh.run earlier).run (block label inside)) ∧
      (∃ s, ((fresh.run earlier).exec (.openScope label)).reply = .opened s.handle ∧
        (((fresh.run earlier).run (.openScope label :: inside)).exec .closeScope).reply =
          .closed s ∧
        s.label = label ∧ s.parent = some (fresh.run earlier).current) ∧
      (fresh.run earlier).registry <+: ((fresh.run earlier).run (block label inside)).registry ∧
      ((fresh.run earlier).run (block label inside)).scopes.nextSerial =
        (fresh.run earlier).scopes.nextSerial + openings (block label inside) := by
  have hc : (fresh.run earlier).Chained := h.chained.run earlier
  obtain ⟨s, next, he, hs, hl, hcurrent⟩ := (hb.run_inside hc).exec_closeScope hc
  refine ⟨?_, ⟨s, ?_, ?_, hs.label_eq, hs.parent_eq⟩, registry_prefix_run _ _, nextSerial_run _ _⟩
  · rw [run_block_eq, he]
    exact sameScopes_of_toList hl hcurrent
  · rw [hs.handle_eq]
    rfl
  · rw [he]

/-- A block in a scope that shadows a name, with a block and a name of its own inside. -/
theorem run_block_nested : Fresh ["tax"] (withBuiltins "root" ["tax"]) ∧
    ((withBuiltins "root" ["tax"]).run [.openScope "outer", .declare (.declared "tax")]).Block
      "inner" [.declare (.declared "tax"), .openScope "deep", .declare (.declared "tax rate"),
        .closeScope, .openScope "next", .closeScope] ∧
    SameScopes
      ((withBuiltins "root" ["tax"]).run [.openScope "outer", .declare (.declared "tax")])
      (((withBuiltins "root" ["tax"]).run [.openScope "outer", .declare (.declared "tax")]).run
        (block "inner" [.declare (.declared "tax"), .openScope "deep",
          .declare (.declared "tax rate"), .closeScope, .openScope "next", .closeScope])) := by
  have h : Fresh ["tax"] (withBuiltins "root" ["tax"]) := .withBuiltins "root" _
  have hb : ((withBuiltins "root" ["tax"]).run
      [.openScope "outer", .declare (.declared "tax")]).Block "inner"
        [.declare (.declared "tax"), .openScope "deep", .declare (.declared "tax rate"),
          .closeScope, .openScope "next", .closeScope] := by
    have hk : KeepsOpen [.declare (.declared "tax"), .openScope "deep",
        .declare (.declared "tax rate"), .closeScope, .openScope "next", .closeScope] := by
      decide +kernel
    exact ⟨(keepsOpen_iff_depth (h.chained.run _) _).mp hk, by decide +kernel⟩
  exact ⟨h, hb, (run_block h _ hb).1⟩

end Environment

end SpacedNames
