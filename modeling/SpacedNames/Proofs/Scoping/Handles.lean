import SpacedNames.Proofs.Scoping.Blocks

/-!
# Handles

A slot is used again as soon as its scope is closed, so a handle that was kept too long points to a
slot with another scope in it. The serial tells the two apart.

* `Environment.issued`: the handles that a run hands out. Their serials count them
  (`serials_replies`), so no two are equal.
* `Environment.Stale`: the handle was handed out and no live scope has it. Every command keeps this
  (`Stale.exec`).
* `KeepsOpen.scope?_opened`, `closes_of_not_keepsOpen`: the handle of an opened scope stands for that
  scope until it is closed, and is stale from then on.
* `Environment.run_handles`: the handles of every run on a fresh environment.
-/

namespace SpacedNames

namespace Environment

variable {e e' fresh : Environment} {builtins : List String} {h : Handle} {label : String}
  {after : List Command}

/-! ## The handles of a run -/

/-- What the commands are answered, in order. -/
def replies (e : Environment) : List Command → List Reply
  | [] => []
  | command :: rest => (e.exec command).reply :: (e.exec command).environment.replies rest

/-- The handle that a reply hands out. -/
def Reply.opened? : Reply → Option Handle
  | .opened h => some h
  | .closed _ | .declared _ | .failed _ => none

/-- The handles that are known after the commands: the one of the root, and one for each scope that
was opened. -/
def issued (e : Environment) (commands : List Command) : List Handle :=
  e.scopes.root.handle :: (e.replies commands).filterMap Reply.opened?

theorem replies_append (e : Environment) (xs ys : List Command) :
    e.replies (xs ++ ys) = e.replies xs ++ (e.run xs).replies ys := by
  induction xs generalizing e with
  | nil => rfl
  | cons command rest ih => exact congrArg (_ :: ·) (ih _)

theorem mem_issued_of_openScope (e : Environment) (before : List Command) (label : String)
    (after : List Command) :
    ((e.run before).openScope label).1 ∈ e.issued (before ++ .openScope label :: after) := by
  refine List.mem_cons_of_mem _ (List.mem_filterMap.mpr ⟨.opened _, ?_, rfl⟩)
  rw [replies_append]
  exact List.mem_append_right _ List.mem_cons_self

/-- **The serials count the scopes that are opened.** -/
theorem serials_replies (e : Environment) (commands : List Command) :
    ((e.replies commands).filterMap Reply.opened?).map Handle.serial =
      List.range' e.scopes.nextSerial (openings commands) := by
  induction commands generalizing e with
  | nil => rfl
  | cons command rest ih =>
    have hnext := ih (e.exec command).environment
    rw [nextSerial_exec] at hnext
    have hcount : openings (command :: rest) = openings [command] + openings rest :=
      openings_append [command] rest
    rw [replies, List.filterMap_cons, hcount]
    cases command with
    | openScope label =>
      rw [show openings [.openScope label] = 1 from rfl, Nat.add_comm 1, List.range'_succ]
      exact congrArg (e.scopes.nextSerial :: ·) hnext
    | closeScope =>
      have hnone : (e.exec .closeScope).reply.opened? = none := by
        rw [Environment.exec]
        split <;> rfl
      rw [show openings [.closeScope] = 0 from rfl] at hnext ⊢
      rw [hnone, Nat.zero_add]
      exact hnext
    | declare name =>
      rw [show openings [.declare name] = 0 from rfl] at hnext ⊢
      rw [Nat.zero_add]
      exact hnext

theorem Fresh.nodup_issued (hf : Fresh builtins fresh) (commands : List Command) :
    (fresh.issued commands).Nodup := by
  have hroot : fresh.scopes.root.handle.serial = 0 := hf.chained.linked.root_serial
  have hone : fresh.scopes.nextSerial = 1 := by
    obtain ⟨label, rfl⟩ := hf.exists_eq_withBuiltins
    rfl
  have hserials : (fresh.issued commands).map Handle.serial =
      List.range' 0 (openings commands + 1) := by
    rw [issued, List.map_cons, serials_replies, hroot, hone, List.range'_succ]
  have hnodup : ((fresh.issued commands).map Handle.serial).Nodup :=
    hserials ▸ List.nodup_range'
  exact (List.pairwise_map.mp hnodup).imp fun hne he => hne (congrArg Handle.serial he)

/-! ## Stale handles -/

/-- The handle was handed out, and no live scope has it. -/
structure Stale (e : Environment) (h : Handle) : Prop where
  handed_out : h.serial < e.scopes.nextSerial
  not_live : ∀ s ∈ e.scopes.toList, s.handle ≠ h

theorem Stale.scope?_eq_none (hs : e.Stale h) : e.scopes.scope? h = none := by
  rw [Option.eq_none_iff_forall_not_mem]
  intro s hm
  obtain ⟨hi, he⟩ := ScopeStack.scope?_eq_some_iff.mp hm
  exact hs.not_live s (List.mem_of_getElem? hi) he

/-- **No command brings a stale handle back.** A scope that is opened has a new serial. -/
theorem Stale.exec (hs : e.Stale h) (hc : e.Chained) (command : Command) :
    (e.exec command).environment.Stale h := by
  refine ⟨?_, fun s hm => ?_⟩
  · rw [nextSerial_exec]
    exact Nat.lt_add_right _ hs.handed_out
  · cases command with
    | openScope label =>
      have hm : s ∈ e.scopes.toList ++ [_] := hm
      rcases List.mem_append.mp hm with hm | hm
      · exact hs.not_live s hm
      · obtain rfl := List.mem_singleton.mp hm
        rintro rfl
        exact Nat.lt_irrefl _ hs.handed_out
    | closeScope =>
      obtain ⟨-, he⟩ | ⟨front, t, hi, he⟩ := hc.exec_closeScope
      · rw [he] at hm
        exact hs.not_live s hm
      · rw [he] at hm
        refine hs.not_live s ?_
        rw [ScopeStack.toList_of_inner_append hi]
        exact List.mem_append_left _ hm
    | declare name =>
      have hm : s ∈ (e.declare name).2.scopes.toList := hm
      rw [hc.toList_declare] at hm
      obtain ⟨t, ht, rfl⟩ := List.mem_map.mp hm
      rw [bindHere_handle]
      exact hs.not_live t ht

theorem Stale.run (hs : e.Stale h) (hc : e.Chained) (commands : List Command) :
    (e.run commands).Stale h :=
  (run_induction (P := fun e => e.Chained ∧ e.Stale h)
    (fun _ command h => ⟨h.1.exec command, h.2.exec h.1 command⟩) ⟨hc, hs⟩ commands).2

/-! ## From opening to closing -/

/-- As long as the opened scope stays open, its handle stands for it. -/
theorem KeepsOpen.scope?_opened (hk : KeepsOpen after) (hc : e.Chained) (label : String) :
    ∃ s, (e.run (.openScope label :: after)).scopes.scope? (e.openScope label).1 = some s ∧
      s.MadeWith (e.openScope label).1 label (some e.current) := by
  obtain ⟨n, hin, -⟩ := hk.run_inside hc label
  obtain ⟨s, above, hl, hs, -⟩ := hin.scopes
  refine ⟨s, hin.chained.linked.scope?_eq_some_iff.mpr ⟨?_, hs.handle_eq⟩, hs⟩
  rw [hl]
  exact List.mem_append_right _ List.mem_cons_self

/-- One of the commands closes the scope of the handle. -/
def Closes (e : Environment) (h : Handle) (commands : List Command) : Prop :=
  ∃ part rest s, commands = part ++ .closeScope :: rest ∧
    ((e.run part).exec .closeScope).reply = .closed s ∧ s.handle = h

/-- When the opened scope is closed, its handle becomes stale and stays so. -/
theorem closes_of_not_keepsOpen (hk : ¬ KeepsOpen after) (hc : e.Chained) (label : String) :
    (e.openScope label).2.Closes (e.openScope label).1 after ∧
      (e.run (.openScope label :: after)).Stale (e.openScope label).1 := by
  obtain ⟨part, rest, rfl, hpart, hcount⟩ := exists_closing_of_not_keepsOpen hk
  obtain ⟨n, hin, hn⟩ := hpart.run_inside hc label
  obtain rfl : n = 0 := by omega
  obtain ⟨s, next, he, hs, hl, -⟩ := hin.exec_closeScope hc
  refine ⟨⟨part, rest, s, rfl, congrArg Step.reply he, hs.handle_eq⟩, ?_⟩
  have hnext : e.run (.openScope label :: (part ++ [.closeScope])) = next := by
    rw [run_open_concat, he]
  have hstale : next.Stale (e.openScope label).1 := by
    refine ⟨?_, fun t ht => ?_⟩
    · rw [← hnext, nextSerial_run]
      exact Nat.lt_add_of_pos_right (List.countP_pos_iff.mpr ⟨_, List.mem_cons_self, rfl⟩)
    · -- Its serial was the next one when the scopes that are left were live.
      rw [hl] at ht
      rintro heq
      have hlt := hc.linked.serial_lt t ht
      rw [heq] at hlt
      exact Nat.lt_irrefl _ hlt
  rw [List.append_cons, ← List.cons_append, run_append, hnext]
  exact hstale.run (hnext ▸ hc.run _) rest

/-- A scope that stays open is not given back. -/
theorem KeepsOpen.not_closes (hk : KeepsOpen after) (hc : e.Chained) (label : String) :
    ¬ (e.openScope label).2.Closes (e.openScope label).1 after := by
  rintro ⟨part, rest, s, rfl, hr, hs⟩
  have hpart : KeepsOpen (part ++ [.closeScope]) := hk.of_prefix ⟨rest, by simp⟩
  obtain ⟨t, ht, -⟩ := hpart.scope?_opened hc label
  rw [run_open_concat] at ht
  have hchain : (e.run (.openScope label :: part)).Chained := hc.run _
  have hlast := hchain.toList_of_closed hr
  obtain ⟨hmem, hhandle⟩ := (hchain.exec .closeScope).linked.scope?_eq_some_iff.mp ht
  -- The scope that was given back is another live one with the same handle.
  have hinc := hchain.linked.increasing
  rw [hlast, List.pairwise_append] at hinc
  have hlt := hinc.2.2 t hmem s (List.mem_singleton_self s)
  rw [hhandle, hs] at hlt
  exact Nat.lt_irrefl _ hlt

/-! ## Every run -/

/-- What the handle `h` of a scope that was opened in `e` with the label stands for in `e'`, to which
the commands `after` have led. -/
structure Resolves (e : Environment) (label : String) (h : Handle) (after : List Command)
    (e' : Environment) : Prop where
  /-- The handle stands for a scope until that scope is closed. -/
  live_iff : (∃ s, e'.scopes.scope? h = some s) ↔ ¬ (e.openScope label).2.Closes h after
  /-- It is closed when more scopes have been closed than opened since. -/
  closes_iff : (e.openScope label).2.Closes h after ↔ ¬ KeepsOpen after
  /-- The scope is the one that was opened. -/
  made : ∀ s, e'.scopes.scope? h = some s → s.MadeWith h label (some e.current)
  /-- Once it stands for none, there is no path, and whatever is opened later, it stands for none
  again. -/
  stale : e'.scopes.scope? h = none →
    e'.scopes.pathOf h = [] ∧ ∀ later, (e'.run later).scopes.scope? h = none

theorem Chained.resolves (hc : e.Chained) (label : String) (after : List Command) :
    Resolves e label (e.openScope label).1 after (e.run (.openScope label :: after)) := by
  by_cases hk : KeepsOpen after
  · obtain ⟨s, hs, hmade⟩ := hk.scope?_opened hc label
    have hnot := hk.not_closes hc label
    refine ⟨iff_of_true ⟨s, hs⟩ hnot, iff_of_false hnot (not_not_intro hk), ?_, ?_⟩
    · intro t ht
      rw [hs] at ht
      cases ht
      exact hmade
    · intro hnone
      rw [hs] at hnone
      cases hnone
  · obtain ⟨hcloses, hstale⟩ := closes_of_not_keepsOpen hk hc label
    have hnone := hstale.scope?_eq_none
    have hnot : ¬ ∃ s, (e.run (.openScope label :: after)).scopes.scope? (e.openScope label).1 =
        some s := by
      rintro ⟨s, hs⟩
      rw [hnone] at hs
      cases hs
    refine ⟨iff_of_false hnot (not_not_intro hcloses), iff_of_true hcloses hk, ?_, ?_⟩
    · intro s hs
      exact absurd ⟨s, hs⟩ hnot
    · intro _
      refine ⟨ScopeStack.pathOf_of_scope?_eq_none hnone, fun later => ?_⟩
      exact (hstale.run (hc.run _) later).scope?_eq_none

/-- The root is never closed, and keeps what it was made with. -/
theorem Chained.root_exec (hc : e.Chained) {parent : Option Handle}
    (hr : e.scopes.root.MadeWith h label parent) (command : Command) :
    (e.exec command).environment.scopes.root.MadeWith h label parent := by
  cases command with
  | openScope inner => exact hr
  | closeScope =>
    obtain ⟨-, he⟩ | ⟨front, s, -, he⟩ := hc.exec_closeScope
    · rw [he]
      exact hr
    · rw [he]
      exact hr
  | declare name =>
    have hroot : (e.declare name).2.scopes.root = e.bindHere name e.scopes.root :=
      (List.cons.inj (hc.toList_declare name)).1
    rw [show (e.exec (.declare name)).environment = (e.declare name).2 from rfl, hroot]
    exact ⟨(bindHere_handle ..).trans hr.handle_eq, (bindHere_label ..).trans hr.label_eq,
      (bindHere_parent ..).trans hr.parent_eq⟩

theorem Chained.scope?_root (hc : e.Chained) (commands : List Command) :
    ∃ s, (e.run commands).scopes.scope? e.scopes.root.handle = some s ∧
      s.MadeWith e.scopes.root.handle e.scopes.root.label none := by
  have hstart : e.scopes.root.MadeWith e.scopes.root.handle e.scopes.root.label none :=
    ⟨rfl, rfl, hc.linked.root_parent⟩
  obtain ⟨hrun, hroot⟩ := run_induction
    (P := fun e' => e'.Chained ∧
      e'.scopes.root.MadeWith e.scopes.root.handle e.scopes.root.label none)
    (fun _ command h => ⟨h.1.exec command, h.1.root_exec h.2 command⟩) ⟨hc, hstart⟩ commands
  exact ⟨_, hrun.linked.scope?_eq_some_iff.mpr ⟨List.mem_cons_self, hroot.handle_eq⟩, hroot⟩

/-- **A handle stands for one scope and never for another.** The handles of a run are all different;
the root's stands for the root, and the one of an opened scope for that scope until it is closed, and
for none from then on. -/
theorem run_handles (hf : Fresh builtins fresh) (commands : List Command) :
    (fresh.issued commands).Nodup ∧
      (∃ s, (fresh.run commands).scopes.scope? fresh.scopes.root.handle = some s ∧
        s.MadeWith fresh.scopes.root.handle fresh.scopes.root.label none) ∧
      ∀ before label after, commands = before ++ .openScope label :: after →
        ∃ h ∈ fresh.issued commands,
          ((fresh.run before).exec (.openScope label)).reply = .opened h ∧
            Resolves (fresh.run before) label h after (fresh.run commands) := by
  refine ⟨hf.nodup_issued commands, hf.chained.scope?_root commands, ?_⟩
  rintro before label after rfl
  refine ⟨_, mem_issued_of_openScope fresh before label after, rfl, ?_⟩
  rw [run_append]
  exact (hf.chained.run before).resolves label after

/-- The slot of a closed scope is taken by a second one, and the handle of the first stays stale. -/
theorem run_handles_reused : Fresh ["tax"] (withBuiltins "root" ["tax"]) ∧
    ((withBuiltins "root" ["tax"]).issued [.openScope "first", .declare (.declared "rate"),
      .closeScope, .openScope "second"]) = [⟨0, 0⟩, ⟨1, 1⟩, ⟨1, 2⟩] ∧
    ∃ h ∈ (withBuiltins "root" ["tax"]).issued [.openScope "first", .declare (.declared "rate"),
        .closeScope, .openScope "second"],
      ((withBuiltins "root" ["tax"]).exec (.openScope "first")).reply = .opened h ∧
        Resolves (withBuiltins "root" ["tax"]) "first" h
          [.declare (.declared "rate"), .closeScope, .openScope "second"]
          ((withBuiltins "root" ["tax"]).run [.openScope "first", .declare (.declared "rate"),
            .closeScope, .openScope "second"]) :=
  have hf : Fresh ["tax"] (withBuiltins "root" ["tax"]) := .withBuiltins "root" _
  ⟨hf, by decide +kernel, (run_handles hf _).2.2 [] "first"
    [.declare (.declared "rate"), .closeScope, .openScope "second"] rfl⟩

end Environment

end SpacedNames
