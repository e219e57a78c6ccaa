import SpacedNames.Proofs.Scoping.Candidates
import SpacedNames.Proofs.Scoping.Stack
import SpacedNames.Scoping.Command

/-!
# Runs on a fresh environment

* `Environment.Fresh builtins e`: `e` is an environment to which nothing has been done yet, and the
  language provides `builtins` in it.
* `Environment.Chained`: the live scopes are one chain, and the current scope is the innermost
  one. A fresh environment is `Chained` (`Fresh.chained`), and each command keeps it
  (`Chained.exec`).
* `Environment.Chained.exec_closeScope`: closing a scope removes the current one, and the parent
  that becomes current is the innermost one of the others; only the root is refused.
* `Environment.Orderly`: what the chain comes to for those who ask. No operation ever falls back to
  what it does when its scope is missing.
* `Environment.run_chained`: every run is `Chained` and `Orderly`.
-/

namespace SpacedNames

namespace Environment

variable {e fresh : Environment} {builtins : List String}

/-! ## Runs -/

/-- An environment to which nothing has been done yet. The language provides the `builtins`. -/
inductive Fresh : List String → Environment → Prop
  | ofRoot (label : String) : Fresh [] (ofRoot label)
  | plain : Fresh [] plain
  | withBuiltins (label : String) (spellings : List String) :
      Fresh spellings (withBuiltins label spellings)

/-- Without names the root is empty in all of them. -/
theorem Fresh.exists_eq_withBuiltins (h : Fresh builtins fresh) :
    ∃ label, fresh = .withBuiltins label builtins := by
  cases h with
  | ofRoot label => exact ⟨label, rfl⟩
  | plain => exact ⟨"<builtin>", rfl⟩
  | withBuiltins label => exact ⟨label, rfl⟩

theorem run_cons (e : Environment) (command : Command) (rest : List Command) :
    e.run (command :: rest) = (e.exec command).environment.run rest := rfl

theorem run_append (e : Environment) (xs ys : List Command) :
    e.run (xs ++ ys) = (e.run xs).run ys :=
  List.foldl_append

/-- What each command keeps, a run keeps. -/
theorem run_induction {P : Environment → Prop}
    (step : ∀ e command, P e → P (e.exec command).environment) (h : P e)
    (commands : List Command) : P (e.run commands) := by
  induction commands generalizing e with
  | nil => exact h
  | cons command rest ih => exact ih (step e command h)

/-- A scope that is closed takes nothing with it but itself. -/
theorem closeScope_ok {s : Scope} {next : Environment} (h : e.closeScope = .ok (s, next)) :
    next.registry = e.registry ∧ next.scopes.nextSerial = e.scopes.nextSerial := by
  unfold closeScope at h
  split at h
  · cases h
  · split at h
    · cases h
    · rename_i hclose
      obtain ⟨t, -, ht⟩ := Option.map_eq_some_iff.mp hclose
      cases h
      cases ht
      exact ⟨rfl, rfl⟩

/-! ## The chain -/

/-- The live scopes are one chain, and the current scope is its end. -/
structure Chained (e : Environment) : Prop where
  linked : e.scopes.Linked
  current : e.scopes.innermost.handle = e.current

theorem Chained.scope?_current (h : e.Chained) :
    e.scopes.scope? e.current = some e.scopes.innermost :=
  h.linked.scope?_eq_some_iff.mpr ⟨e.scopes.innermost_mem, h.current⟩

theorem Chained.currentScope_eq (h : e.Chained) : e.currentScope = e.scopes.innermost := by
  rw [currentScope, h.scope?_current, Option.getD_some]

theorem Chained.visible_eq (h : e.Chained) : e.visible = e.scopes.toList.reverse := by
  rw [visible, ← h.current, h.linked.ancestors_innermost]

theorem Chained.depth_add_one (h : e.Chained) : e.depth + 1 = e.scopes.size := by
  have hi : e.scopes.inner.length + 1 = e.scopes.size := rfl
  rw [depth, Handle.depth, ← h.current,
    h.linked.slot _ _ (ScopeStack.getElem?_innermost hi)]
  rfl

/-! ## Fresh environments -/

/-- Binding names in a scope changes only what is bound. -/
theorem foldl_bind_eq {α : Type} {f : Scope → α} (hf : ∀ s n, f (s.bind n) = f s)
    (spellings : List String) (s : Scope) :
    f (spellings.foldl (fun scope spelling => scope.bind (.builtin spelling)) s) = f s := by
  induction spellings generalizing s with
  | nil => rfl
  | cons spelling rest ih => exact (ih _).trans (hf s (.builtin spelling))

theorem Fresh.chained (h : Fresh builtins fresh) : fresh.Chained := by
  obtain ⟨label, rfl⟩ := h.exists_eq_withBuiltins
  have hl := foldl_bind_eq (f := Scope.link) (fun _ _ => rfl) builtins
    (ScopeStack.ofRoot label).root
  refine ⟨(ScopeStack.linked_ofRoot label).congr ?_ (Nat.le_refl _), rfl⟩
  exact congrArg (· :: []) hl

/-! ## Commands -/

theorem Chained.openScope (h : e.Chained) (label : String) : (e.openScope label).2.Chained := by
  refine ⟨?_, ?_⟩
  · have hl := h.linked.openBelow label
    rw [h.current] at hl
    exact hl
  · exact congrArg Scope.handle (e.scopes.innermost_openBelow e.current label)

/-- The environment with these scopes above the root, the last of them current. -/
def withInner (e : Environment) (front : List Scope) : Environment :=
  { e with
    scopes := { e.scopes with inner := front }
    current := { e.scopes with inner := front }.innermost.handle }

theorem Chained.closeScope_of_inner_nil (h : e.Chained) (hi : e.scopes.inner = []) :
    e.closeScope = .error (.belowBottom .scope e.scopes.root.label) := by
  rw [closeScope, h.currentScope_eq, ScopeStack.innermost_of_inner_nil hi, h.linked.root_parent]

/-- **The current scope is closed**, and its parent is the innermost one of the others. -/
theorem Chained.closeScope_of_inner_append (h : e.Chained) {front : List Scope} {s : Scope}
    (hi : e.scopes.inner = front ++ [s]) : e.closeScope = .ok (s, e.withInner front) := by
  rw [closeScope, h.currentScope_eq, ScopeStack.innermost_of_inner_append hi,
    h.linked.parent_of_inner_append hi, ScopeStack.closeInnermost?_of_inner_append hi]
  rfl

/-- What closing a scope comes to: the root is refused and nothing changes, or the last scope is
closed. -/
theorem Chained.exec_closeScope (h : e.Chained) :
    (e.scopes.inner = [] ∧
      e.exec .closeScope = ⟨e, .failed (.belowBottom .scope e.scopes.root.label), []⟩) ∨
    ∃ front s, e.scopes.inner = front ++ [s] ∧
      e.exec .closeScope = ⟨e.withInner front, .closed s, [.scopeClosed s]⟩ := by
  rcases e.scopes.inner_cases with hi | ⟨front, s, hi⟩
  · refine .inl ⟨hi, ?_⟩
    rw [Environment.exec, h.closeScope_of_inner_nil hi]
  · refine .inr ⟨front, s, hi, ?_⟩
    rw [Environment.exec, h.closeScope_of_inner_append hi]

theorem Chained.withInner (h : e.Chained) {front : List Scope} {s : Scope}
    (hi : e.scopes.inner = front ++ [s]) : (e.withInner front).Chained :=
  ⟨h.linked.of_inner_append hi, rfl⟩

/-- What a declaration makes of a live scope: the name is bound in the scope of the current handle
and in no other. -/
def bindHere (e : Environment) (name : Name) (s : Scope) : Scope :=
  if s.handle = e.current then s.bind name else s

theorem bindHere_of_eq {s : Scope} (h : s.handle = e.current) (name : Name) :
    e.bindHere name s = s.bind name :=
  if_pos h

theorem bindHere_of_ne {s : Scope} (h : s.handle ≠ e.current) (name : Name) :
    e.bindHere name s = s :=
  if_neg h

/-- What a scope was made with does not change. -/
theorem bindHere_eq {α : Type} {f : Scope → α} (hf : ∀ s n, f (s.bind n) = f s) (e : Environment)
    (name : Name) (s : Scope) : f (e.bindHere name s) = f s := by
  unfold bindHere
  split
  · exact hf s name
  · rfl

@[simp] theorem bindHere_handle (e : Environment) (name : Name) (s : Scope) :
    (e.bindHere name s).handle = s.handle :=
  bindHere_eq Scope.bind_handle e name s

@[simp] theorem bindHere_parent (e : Environment) (name : Name) (s : Scope) :
    (e.bindHere name s).parent = s.parent :=
  bindHere_eq Scope.bind_parent e name s

@[simp] theorem bindHere_label (e : Environment) (name : Name) (s : Scope) :
    (e.bindHere name s).label = s.label :=
  bindHere_eq Scope.bind_label e name s

theorem toList_declare (h : e.scopes.Slotted) (name : Name) :
    (e.declare name).2.scopes.toList = e.scopes.toList.map (e.bindHere name) :=
  h.toList_modify e.current (·.bind name)

theorem Chained.toList_declare (h : e.Chained) (name : Name) :
    (e.declare name).2.scopes.toList = e.scopes.toList.map (e.bindHere name) :=
  Environment.toList_declare h.linked.slotted name

/-- A name is bound in the last scope. The handles of the others are not the current one. -/
theorem Chained.toList_declare_concat (h : e.Chained) {front : List Scope} {s : Scope}
    (hl : e.scopes.toList = front ++ [s]) (name : Name) :
    (e.declare name).2.scopes.toList = front ++ [s.bind name] := by
  have hs : s.handle = e.current := by
    rw [← h.current, ScopeStack.innermost_of_toList hl]
  have hother : ∀ t ∈ front, e.bindHere name t = t := by
    intro t ht
    have hinc := h.linked.increasing
    rw [hl, List.pairwise_append] at hinc
    have hlt := hinc.2.2 t ht s (List.mem_singleton_self s)
    exact bindHere_of_ne (fun he => Nat.ne_of_lt hlt (by rw [he, hs])) name
  rw [h.toList_declare, hl, List.map_append, List.map_congr_left hother, List.map_id',
    List.map_singleton, bindHere_of_eq hs]

/-- The scope that is given back was the last one. -/
theorem Chained.toList_of_closed (h : e.Chained) {s : Scope}
    (hr : (e.exec .closeScope).reply = .closed s) :
    e.scopes.toList = (e.exec .closeScope).environment.scopes.toList ++ [s] := by
  obtain ⟨-, he⟩ | ⟨front, t, hi, he⟩ := h.exec_closeScope
  · rw [he] at hr
    cases hr
  · rw [he] at hr ⊢
    cases hr
    exact ScopeStack.toList_of_inner_append hi

/-- The last scope is closed, unless it is the root. -/
theorem Chained.exec_closeScope_concat (h : e.Chained) {front : List Scope} {s : Scope}
    (hl : e.scopes.toList = front ++ [s]) (hf : front ≠ []) :
    ∃ next, e.exec .closeScope = ⟨next, .closed s, [.scopeClosed s]⟩ ∧
      next.scopes.toList = front := by
  obtain ⟨root, inner, rfl⟩ := List.exists_cons_of_ne_nil hf
  obtain ⟨hroot, hi⟩ := List.cons.inj hl
  refine ⟨e.withInner inner, ?_, ?_⟩
  · rw [Environment.exec, h.closeScope_of_inner_append hi]
  · exact congrArg (· :: inner) hroot

theorem Chained.innermost_declare (h : e.Chained) (name : Name) :
    (e.declare name).2.scopes.innermost = e.scopes.innermost.bind name := by
  obtain ⟨front, hl⟩ := e.scopes.exists_toList_concat
  exact ScopeStack.innermost_of_toList (h.toList_declare_concat hl name)

theorem Chained.declare (h : e.Chained) (name : Name) : (e.declare name).2.Chained := by
  refine ⟨h.linked.congr ?_ ?_, ?_⟩
  · rw [h.toList_declare, List.map_map]
    exact List.map_congr_left fun s _ => bindHere_eq (fun _ _ => rfl) e name s
  · exact Nat.le_of_eq (e.scopes.modify_nextSerial e.current (·.bind name)).symm
  · rw [h.innermost_declare]
    exact h.current

/-- **Each command keeps the chain.** -/
theorem Chained.exec (h : e.Chained) (command : Command) : (e.exec command).environment.Chained := by
  cases command with
  | openScope label => exact h.openScope label
  | closeScope =>
    obtain ⟨-, he⟩ | ⟨front, s, hi, he⟩ := h.exec_closeScope
    · rw [he]
      exact h
    · rw [he]
      exact h.withInner hi
  | declare name => exact h.declare name

theorem Chained.run (h : e.Chained) (commands : List Command) : (e.run commands).Chained :=
  run_induction (fun _ command h => h.exec command) h commands

/-! ## What the chain comes to -/

/-- Every question about the live scopes has the answer that one chain gives, and no operation
misses its scope. -/
structure Orderly (e : Environment) : Prop where
  not_empty : e.scopes.toList ≠ []
  depth : e.depth + 1 = e.scopes.size
  /-- The scopes are visited from the last to the first. -/
  visible : e.visible = e.scopes.toList.reverse
  /-- The path of a scope has the labels of the slots up to its own. -/
  path : ∀ (i : Nat) (s : Scope), e.scopes.toList[i]? = some s →
    e.scopes.pathOf s.handle = (e.scopes.toList.take (i + 1)).map Scope.label
  /-- A scope is opened below the innermost live one. -/
  opens : e.scopes.toList.getLast?.map Scope.handle = some e.current
  /-- A current scope that has a parent can be closed, and it is the one that is closed. -/
  closes : ∀ parent, e.currentScope.parent = some parent →
    ∃ rest, e.scopes.closeInnermost? = some (e.currentScope, rest)
  /-- The current scope is live; nothing is looked for in the root instead. -/
  current : e.scopes.scope? e.current = some e.currentScope
  /-- A declared name is stored in the current scope. -/
  stores : ∀ name, ((e.declare name).2.scopes.scope? e.current).bind (·.find? name.key) = some name
  /-- A name is stored under its own key. -/
  keyed : ∀ s ∈ e.scopes.toList, ∀ (key : String) (n : Name),
    s.find? key = some n ↔ s.Holds n ∧ n.key = key

theorem Chained.orderly (h : e.Chained) : e.Orderly where
  not_empty := List.cons_ne_nil _ _
  depth := h.depth_add_one
  visible := h.visible_eq
  path _ _ hi := h.linked.pathOf_eq hi
  opens := by
    rw [ScopeStack.toList, List.getLast?_eq_some_getLast (List.cons_ne_nil _ _), Option.map_some]
    exact congrArg some h.current
  closes parent hp := by
    rw [h.currentScope_eq] at hp ⊢
    rcases e.scopes.inner_cases with hi | ⟨front, s, hi⟩
    · rw [ScopeStack.innermost_of_inner_nil hi, h.linked.root_parent] at hp
      cases hp
    · rw [ScopeStack.innermost_of_inner_append hi]
      exact ⟨_, ScopeStack.closeInnermost?_of_inner_append hi⟩
  current := by rw [h.scope?_current, h.currentScope_eq]
  stores name := by
    have hs : (e.declare name).2.scopes.scope? e.current =
        some (e.scopes.innermost.bind name) := by
      rw [← h.innermost_declare]
      exact (h.declare name).scope?_current
    rw [hs]
    exact e.scopes.innermost.bindings.find?_insert_self name
  keyed _ _ _ _ := Scope.find?_eq_some_iff

/-- **Every run on a fresh environment keeps its live scopes in one chain** that ends at the current
scope. -/
theorem run_chained (h : Fresh builtins fresh) (commands : List Command) :
    (fresh.run commands).Chained ∧ (fresh.run commands).Orderly :=
  ⟨h.chained.run commands, (h.chained.run commands).orderly⟩

/-- Two scopes that are opened one after the other take the same slot. Closing the root is refused
and changes nothing. -/
theorem run_chained_reopened : Fresh ["total cost"] (withBuiltins "root" ["total cost"]) ∧
    (((withBuiltins "root" ["total cost"]).run [.openScope "local", .declare (.declared "tax"),
      .closeScope, .closeScope, .openScope "other"]).Chained ∧
    ((withBuiltins "root" ["total cost"]).run [.openScope "local", .declare (.declared "tax"),
      .closeScope, .closeScope, .openScope "other"]).Orderly) ∧
    ((withBuiltins "root" ["total cost"]).run [.openScope "local", .declare (.declared "tax"),
      .closeScope, .closeScope, .openScope "other"]).current = ⟨1, 2⟩ :=
  have h : Fresh ["total cost"] (withBuiltins "root" ["total cost"]) := .withBuiltins "root" _
  ⟨h, run_chained h _, rfl⟩

end Environment

end SpacedNames
