import SpacedNames.Proofs.Scoping.Chain

/-!
# Starting again on used scopes

`Environment.restart` makes the root current, whatever is open. What was left open then stays where
it is: nothing closes it, and no lookup goes through it.

* `Environment.Strands left above`: the scopes `left` were open at the restart, and `above` are those
  opened since. The way of the current scope to the root goes past `left`.
* `Environment.OneChain`: the live scopes are one chain, and a scope's slot is its depth.
* `Environment.run_restart`: what is live and visible in every run after a restart, which is one
  chain exactly if nothing was left open.
-/

namespace SpacedNames

namespace Environment

variable {e fresh : Environment} {builtins : List String} {left above : List Scope}

/-- The scopes `left` were open when the parse started again, and `above` were opened since. -/
structure Strands (e : Environment) (left above : List Scope) : Prop where
  inner : e.scopes.inner = left ++ above
  slotted : e.scopes.Slotted
  root_parent : e.scopes.root.parent = none
  /-- The first of the scopes opened since is below the root, not below one that was left open. -/
  parent : (e.scopes.root :: above).IsChain fun t u => u.parent = some t.handle
  current : (e.withInner above).current = e.current

theorem withInner_current (e : Environment) (front : List Scope) :
    (e.withInner front).current = (e.withInner front).scopes.innermost.handle := rfl

theorem withInner_current_concat (e : Environment) (front : List Scope) (t : Scope) :
    (e.withInner (front ++ [t])).current = t.handle :=
  congrArg Scope.handle (ScopeStack.innermost_of_inner_append rfl)

theorem Chained.strands_restart (h : e.Chained) : e.restart.Strands e.scopes.inner [] where
  inner := (List.append_nil _).symm
  slotted := h.linked.slotted
  root_parent := h.linked.root_parent
  parent := .singleton _
  current := rfl

theorem Strands.toList_eq (h : e.Strands left above) :
    e.scopes.toList = e.scopes.root :: (left ++ above) :=
  congrArg _ h.inner

theorem Strands.way (h : e.Strands left above) : e.scopes.Way (e.scopes.root :: above) where
  live t ht := by
    rw [h.toList_eq]
    exact List.cons_subset_cons _ (List.subset_append_right left above) ht
  start t ht := by
    obtain rfl : e.scopes.root = t := Option.some.inj ht
    exact h.root_parent
  parent := h.parent

/-- The current scope is the last one opened since, or the root. -/
theorem Strands.exists_concat (h : e.Strands left above) :
    ∃ front u, e.scopes.root :: above = front ++ [u] ∧ u.handle = e.current := by
  obtain ⟨front, hf⟩ := (e.withInner above).scopes.exists_toList_concat
  exact ⟨front, _, hf, h.current⟩

theorem Strands.handle_of_append (h : e.Strands left above) (front : List Scope) {t : Scope}
    (ha : e.scopes.root :: above = front ++ [t]) : t.handle = e.current := by
  obtain ⟨front', u, hu, hcurrent⟩ := h.exists_concat
  obtain ⟨-, hlast⟩ := List.append_inj' (ha.symm.trans hu) rfl
  rw [List.singleton_inj.mp hlast, hcurrent]

/-! ## Commands -/

/-- A scope that is opened gets the next slot above all live ones, but the current scope as its
parent. -/
theorem Strands.openScope (h : e.Strands left above) (label : String) :
    (e.openScope label).2.Strands left
      (above ++ [.empty ⟨e.scopes.size, e.scopes.nextSerial⟩ label (some e.current)]) where
  inner := by
    rw [← List.append_assoc, ← h.inner]
    rfl
  slotted := h.slotted.openBelow e.current label
  root_parent := h.root_parent
  parent := by
    refine h.parent.append (.singleton _) fun t ht u hu => ?_
    obtain ⟨front, hf⟩ := List.getLast?_eq_some_iff.mp ht
    obtain rfl := Option.some.inj hu
    exact congrArg some (h.handle_of_append front hf).symm
  current := withInner_current_concat _ above _

theorem Strands.closeScope_of_nil (h : e.Strands left []) :
    e.closeScope = .error (.belowBottom .scope e.scopes.root.label) := by
  have hroot : e.scopes.scope? e.current = some e.scopes.root := by
    have hway : e.scopes.Way ([] ++ [e.scopes.root]) := h.way
    rw [← h.current]
    exact hway.scope?_last h.slotted
  rw [Environment.closeScope, currentScope, hroot, Option.getD_some, h.root_parent]

/-- **The current scope is closed**, which is the innermost one, and its parent becomes current. -/
theorem Strands.closeScope_of_append {front : List Scope} {t : Scope}
    (h : e.Strands left (front ++ [t])) :
    e.closeScope = .ok (t, { e.withInner (left ++ front) with
      current := (e.withInner front).current }) := by
  have ht : e.scopes.scope? e.current = some t := by
    have hway : e.scopes.Way (e.scopes.root :: front ++ [t]) := h.way
    rw [← h.handle_of_append (e.scopes.root :: front) rfl]
    exact hway.scope?_last h.slotted
  have hchain : (e.scopes.root :: front ++ [t]).IsChain fun t u => u.parent = some t.handle :=
    h.parent
  have hp : t.parent = some (e.withInner front).current :=
    (List.isChain_append.mp hchain).2.2 _ (List.getLast?_eq_some_getLast _) t rfl
  have hi : e.scopes.inner = (left ++ front) ++ [t] := by
    rw [h.inner, List.append_assoc]
  rw [Environment.closeScope, currentScope, ht, Option.getD_some, hp,
    ScopeStack.closeInnermost?_of_inner_append hi]
  rfl

/-- The current scope is closed, unless it is the root. Nothing that was left open is closed. -/
theorem Strands.closeScope (h : e.Strands left above) :
    ∃ front, (e.exec .closeScope).environment.Strands left front := by
  rcases List.eq_nil_or_concat above with rfl | ⟨front, t, rfl⟩
  · rw [Environment.exec, h.closeScope_of_nil]
    exact ⟨[], h⟩
  · rw [List.concat_eq_append] at h
    rw [Environment.exec, h.closeScope_of_append]
    have hchain : (e.scopes.root :: front ++ [t]).IsChain fun t u => u.parent = some t.handle :=
      h.parent
    refine ⟨front, rfl, h.slotted.of_prefix ⟨[t], ?_⟩, h.root_parent, hchain.left_of_append, rfl⟩
    rw [h.toList_eq, ← List.append_assoc]
    rfl

/-- None of the scopes that were left open is the current one. -/
theorem Strands.handle_ne (h : e.Strands left above) {t : Scope} (ht : t ∈ left) :
    t.handle ≠ e.current := by
  obtain ⟨front, u, hu, hcurrent⟩ := h.exists_concat
  have hinc := h.slotted.increasing
  rw [h.toList_eq, List.pairwise_cons, List.pairwise_append] at hinc
  have hne : t.handle.slot ≠ u.handle.slot := by
    rcases List.mem_cons.mp (hu ▸ List.mem_append_right front (List.mem_singleton_self u))
      with rfl | hu
    · exact Nat.ne_of_gt (hinc.1 t (List.mem_append_left above ht))
    · exact Nat.ne_of_lt (hinc.2.2.2 t ht u hu)
  exact fun he => hne (by rw [he, hcurrent])

theorem Strands.toList_declare (h : e.Strands left above) (name : Name) :
    (e.declare name).2.scopes.toList =
      e.bindHere name e.scopes.root :: (left ++ above.map (e.bindHere name)) := by
  have hleft : left.map (e.bindHere name) = left :=
    (List.map_congr_left fun t ht => bindHere_of_ne (h.handle_ne ht) name).trans (List.map_id' left)
  rw [Environment.toList_declare h.slotted, h.toList_eq, List.map_cons, List.map_append, hleft]

/-- A name is bound in the current scope, which is none of those that were left open. -/
theorem Strands.declare (h : e.Strands left above) (name : Name) :
    (e.declare name).2.Strands left (above.map (e.bindHere name)) := by
  have hl := h.toList_declare name
  obtain ⟨hroot, hinner⟩ := List.cons.inj hl
  refine ⟨hinner, ?_, ?_, ?_, ?_⟩
  · refine h.slotted.congr ?_
    rw [hl, h.toList_eq]
    simp [Function.comp_def]
  · rw [hroot, bindHere_parent, h.root_parent]
  · rw [hroot, ← List.map_cons, List.isChain_map]
    simpa only [bindHere_handle, bindHere_parent] using h.parent
  · obtain ⟨front, u, hu, hcurrent⟩ := h.exists_concat
    have hlast : (e.declare name).2.scopes.root :: above.map (e.bindHere name) =
        front.map (e.bindHere name) ++ [e.bindHere name u] := by
      rw [hroot, ← List.map_cons, hu, List.map_append, List.map_singleton]
    have hinnermost := ScopeStack.innermost_of_toList
      (s := ((e.declare name).2.withInner (above.map (e.bindHere name))).scopes) hlast
    rw [withInner_current, hinnermost, bindHere_handle]
    exact hcurrent

/-- **Each command leaves the scopes that were left open as they are.** -/
theorem Strands.exec (h : e.Strands left above) (command : Command) :
    ∃ above', (e.exec command).environment.Strands left above' := by
  cases command with
  | openScope label => exact ⟨_, h.openScope label⟩
  | closeScope => exact h.closeScope
  | declare name => exact ⟨_, h.declare name⟩

theorem Strands.run (h : e.Strands left above) (commands : List Command) :
    ∃ above', (e.run commands).Strands left above' :=
  run_induction (P := fun e => ∃ above, e.Strands left above)
    (fun _ command ⟨_, h⟩ => h.exec command) ⟨above, h⟩ commands

/-! ## What is visible -/

theorem Strands.visible_eq (h : e.Strands left above) :
    e.visible = (e.scopes.root :: above).reverse := by
  obtain ⟨front, u, hu, hcurrent⟩ := h.exists_concat
  have hw := h.way
  rw [hu] at hw
  have hfuel : front.length < e.scopes.size := by
    have hlen := congrArg List.length hu
    rw [ScopeStack.size, h.toList_eq]
    simp only [List.length_cons, List.length_append, List.length_nil] at hlen ⊢
    omega
  rw [visible, ← hcurrent, ScopeStack.ancestors, hw.climb_eq h.slotted hfuel, hu]

theorem Strands.depth_eq (h : e.Strands left above) :
    e.depth = if above = [] then 0 else left.length + above.length := by
  have hslot {i : Nat} {t : Scope} (ht : e.scopes.toList[i]? = some t)
      (hc : t.handle = e.current) : e.depth = i := by
    rw [depth, Handle.depth, ← hc, h.slotted i t ht]
  rcases List.eq_nil_or_concat above with rfl | ⟨front, t, rfl⟩
  · rw [if_pos rfl]
    exact hslot (t := e.scopes.root) rfl (h.handle_of_append [] rfl)
  · rw [List.concat_eq_append] at h ⊢
    rw [if_neg (by simp)]
    refine hslot (t := t) ?_ (h.handle_of_append (e.scopes.root :: front) rfl)
    have hlen : left.length + (front ++ [t]).length = (e.scopes.root :: (left ++ front)).length := by
      simp only [List.length_append, List.length_cons, List.length_nil]
      omega
    rw [h.toList_eq, ← List.append_assoc, ← List.cons_append, hlen]
    exact List.getElem?_concat_length

/-- The live scopes are one chain that ends at the current scope, and a scope's slot is its
depth. -/
structure OneChain (e : Environment) : Prop where
  /-- The parent of a scope is the live scope in the slot below. -/
  parent : ∀ (i : Nat) (t u : Scope), e.scopes.toList[i]? = some t →
    e.scopes.toList[i + 1]? = some u → u.parent = some t.handle
  current : e.scopes.innermost.handle = e.current
  /-- The depth is the number of scopes on the way from the parent of the current one. -/
  depth : e.visible.length = e.depth + 1

/-- What was left open is live and not visible, so the scopes are one chain only without it. -/
theorem Strands.oneChain_iff (h : e.Strands left above) : e.OneChain ↔ left = [] := by
  have hsize : e.scopes.inner.length = left.length + above.length := by
    rw [h.inner, List.length_append]
  have hinnermost : e.scopes.innermost.handle.slot = e.scopes.inner.length :=
    h.slotted _ _ (ScopeStack.getElem?_innermost rfl)
  have hvisible : e.visible.length = above.length + 1 := by
    rw [h.visible_eq, List.length_reverse, List.length_cons]
  constructor
  · intro hone
    have hdepth := hone.depth
    rw [hvisible, depth, Handle.depth, ← hone.current, hinnermost, hsize] at hdepth
    exact List.eq_nil_of_length_eq_zero (by omega)
  · rintro rfl
    obtain rfl : above = e.scopes.inner := h.inner.symm
    have hcurrent : e.scopes.innermost.handle = e.current := h.current
    refine ⟨fun i t u ht hu => ?_, hcurrent, ?_⟩
    · have hparent := List.isChain_iff_getElem.mp h.parent i (List.getElem?_eq_some_iff.mp hu).1
      obtain ⟨hi, rfl⟩ := List.getElem?_eq_some_iff.mp ht
      obtain ⟨hi', rfl⟩ := List.getElem?_eq_some_iff.mp hu
      exact hparent
    · rw [hvisible, depth, Handle.depth, ← hcurrent, hinnermost]

/-- **Runs after a restart.** The scopes that were left open stay live to the end, below all that are
opened since. What is visible are the root and the scopes opened since, while the depth counts those
that were left open as well. So the live scopes are one chain again exactly if the earlier run had
closed all of its scopes. -/
theorem run_restart (h : Fresh builtins fresh) (earlier later : List Command) :
    (∃ above, ((fresh.run earlier).restart.run later).scopes.inner =
        (fresh.run earlier).scopes.inner ++ above ∧
      ((fresh.run earlier).restart.run later).visible =
        (((fresh.run earlier).restart.run later).scopes.root :: above).reverse ∧
      ((fresh.run earlier).restart.run later).depth =
        if above = [] then 0 else (fresh.run earlier).scopes.inner.length + above.length) ∧
    (((fresh.run earlier).restart.run later).OneChain ↔ (fresh.run earlier).scopes.inner = []) := by
  obtain ⟨above, hs⟩ := (h.chained.run earlier).strands_restart.run later
  exact ⟨⟨above, hs.inner, hs.visible_eq, hs.depth_eq⟩, hs.oneChain_iff⟩

/-- A restart at the root changes nothing, and the second run goes on as the first one would. -/
theorem run_restart_closed : Fresh ["tax"] (withBuiltins "root" ["tax"]) ∧
    (((withBuiltins "root" ["tax"]).run [.openScope "local", .closeScope]).restart.run
      [.openScope "other", .declare (.declared "total cost")]).OneChain :=
  have h : Fresh ["tax"] (withBuiltins "root" ["tax"]) := .withBuiltins "root" _
  ⟨h, (run_restart h [.openScope "local", .closeScope]
    [.openScope "other", .declare (.declared "total cost")]).2.mpr rfl⟩

/-- With one scope left open, a scope that is opened after the restart is at depth two, but only the
root is on its way. -/
theorem not_oneChain_leftOpen :
    ¬ ((plain.run [.openScope "a"]).restart.run [.openScope "b"]).OneChain ∧
      ((plain.run [.openScope "a"]).restart.run [.openScope "b"]).depth = 2 ∧
      ((plain.run [.openScope "a"]).restart.run [.openScope "b"]).visible.map Scope.label =
        ["b", "<builtin>"] := by
  refine ⟨fun h => ?_, rfl, rfl⟩
  have hdepth := h.depth
  revert hdepth
  decide +kernel

end Environment

end SpacedNames
