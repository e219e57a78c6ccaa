import SpacedNames.Proofs.Scoping.Chain

/-!
# The registry is a log

What is declared goes to two places: the scope that is current, where it takes the place of the
name with its key, and the registry, where it stays.

* `Scope.history`: the names that were ever bound in a scope, in order, as the registry and the
  list of builtins tell them.
* `Environment.Logged`: a live scope holds under each key the last name of its history, and the
  registry names no scope that is still to be opened. A fresh environment is `Logged`
  (`Fresh.logged`), and each command keeps it (`Logged.exec`).
* `Environment.run_replays`: in every run the scopes are the replay of their histories, and a
  declaration gives the name that the replay has for its key.
* `Environment.registry_exec`: a declaration puts one entry at the end of the registry, and the
  other commands leave it as it is. So no entry is altered or removed (`registry_prefix_run`), and
  there is one for each declaration, in order (`names_registry_run`).
* `Definition.Records`: what the entry of a declaration tells. Whether a name was shadowed is read
  off the bindings of the current scope; here it is told by the earlier entries and the builtins.
* `Environment.run_registered`: the registry of every run on a fresh environment.
-/

namespace SpacedNames

open Text

/-! ## The last name of a key -/

/-- The last of the names that has this key. -/
def lastOf (key : String) (names : List Name) : Option Name :=
  (names.filter (·.key = key)).getLast?

theorem lastOf_append (key : String) (xs ys : List Name) :
    lastOf key (xs ++ ys) = (lastOf key ys).or (lastOf key xs) := by
  rw [lastOf, List.filter_append, List.getLast?_append]
  rfl

theorem lastOf_singleton (key : String) (n : Name) :
    lastOf key [n] = if n.key = key then some n else none := by
  by_cases h : n.key = key <;> simp [lastOf, h]

/-- One more name is the last one of its own key. -/
theorem lastOf_append_singleton (key : String) (names : List Name) (n : Name) :
    lastOf key (names ++ [n]) = if n.key = key then some n else lastOf key names := by
  rw [lastOf_append, lastOf_singleton]
  split <;> rfl

theorem isSome_lastOf_iff {key : String} {names : List Name} :
    (lastOf key names).isSome = true ↔ ∃ n ∈ names, n.key = key := by
  rw [lastOf, List.getLast?_isSome]
  constructor
  · intro h
    obtain ⟨n, hn⟩ := List.exists_mem_of_ne_nil _ h
    rw [List.mem_filter, decide_eq_true_eq] at hn
    exact ⟨n, hn⟩
  · rintro ⟨n, hn, hk⟩
    exact List.ne_nil_of_mem (List.mem_filter.mpr ⟨hn, decide_eq_true hk⟩)

/-! ## What a scope holds -/

namespace Scope

variable {s : Scope} {builtins : List String} {registry : List Definition} {key : String}

/-- Names that are bound one after the other: the last one of a key counts. -/
theorem find?_foldl_bind (names : List Name) (s : Scope) (key : String) :
    (names.foldl bind s).find? key = (lastOf key names).or (s.find? key) := by
  induction names generalizing s with
  | nil => rfl
  | cons n rest ih =>
    rw [List.foldl_cons, ih, find?_bind, ← List.singleton_append, lastOf_append, Option.or_assoc,
      lastOf_singleton]
    split <;> rfl

/-- The names that were bound in a scope, in order: the builtins, if it is the root, and what the
registry tells of it. -/
def history (s : Scope) (builtins : List String) (registry : List Definition) : List Name :=
  (if s.isRoot then builtins.map Name.builtin else []) ++
    (registry.filter (·.scope = s.handle)).map Definition.name

@[simp] theorem history_bind (n : Name) :
    (s.bind n).history builtins registry = s.history builtins registry := rfl

/-- A name of the history was provided by the language, or the registry tells it of the scope. -/
theorem mem_history {n : Name} : n ∈ s.history builtins registry ↔
    (s.isRoot = true ∧ ∃ spelling ∈ builtins, Name.builtin spelling = n) ∨
      ∃ d ∈ registry, d.scope = s.handle ∧ d.name = n := by
  rw [history, List.mem_append]
  refine or_congr ?_ ?_
  · split <;> rename_i h <;> simp [h]
  · simp only [List.mem_map, List.mem_filter, decide_eq_true_eq, and_assoc]

theorem history_append_of_eq {d : Definition} (h : d.scope = s.handle) :
    s.history builtins (registry ++ [d]) = s.history builtins registry ++ [d.name] := by
  simp [history, List.filter_append, h]

theorem history_append_of_ne {d : Definition} (h : d.scope ≠ s.handle) :
    s.history builtins (registry ++ [d]) = s.history builtins registry := by
  simp [history, List.filter_append, h]

/-- A scope that was just opened has no history. -/
theorem history_empty {handle parent : Handle} {label : String}
    (h : ∀ d ∈ registry, d.scope ≠ handle) :
    (empty handle label (some parent)).history builtins registry = [] := by
  have hf : registry.filter (·.scope = handle) = [] :=
    List.filter_eq_nil_iff.mpr fun d hd => by simpa using h d hd
  rw [history, show (empty handle label (some parent)).handle = handle from rfl, hf]
  rfl

end Scope

namespace Environment

variable {e fresh : Environment} {builtins : List String}

/-! ## Scopes and registry agree -/

/-- A live scope holds under each key the last name of its history, and the registry names no
scope that is still to be opened. -/
structure Logged (builtins : List String) (e : Environment) : Prop where
  find : ∀ s ∈ e.scopes.toList, ∀ key,
    s.find? key = lastOf key (s.history builtins e.registry)
  serial_lt : ∀ d ∈ e.registry, d.scope.serial < e.scopes.nextSerial

theorem Fresh.logged (h : Fresh builtins fresh) : fresh.Logged builtins := by
  obtain ⟨label, rfl⟩ := h.exists_eq_withBuiltins
  refine ⟨fun s hs key => ?_, fun d hd => by cases hd⟩
  obtain rfl := List.mem_singleton.mp hs
  have hroot : (builtins.foldl (fun scope spelling => scope.bind (.builtin spelling))
      (ScopeStack.ofRoot label).root) =
      (builtins.map Name.builtin).foldl Scope.bind (ScopeStack.ofRoot label).root :=
    List.foldl_map.symm
  have hparent : (Environment.withBuiltins label builtins).scopes.root.isRoot = true := by
    have hl := foldl_bind_eq (f := Scope.parent) (fun _ _ => rfl) builtins
      (ScopeStack.ofRoot label).root
    exact congrArg Option.isNone hl
  have hhist : (Environment.withBuiltins label builtins).scopes.root.history builtins [] =
      builtins.map Name.builtin := by
    rw [Scope.history, hparent]
    simp
  calc (Environment.withBuiltins label builtins).scopes.root.find? key
      = ((builtins.map Name.builtin).foldl Scope.bind (ScopeStack.ofRoot label).root).find? key :=
        congrArg (Scope.find? · key) hroot
    _ = lastOf key (builtins.map Name.builtin) := by
        rw [Scope.find?_foldl_bind]
        exact Option.or_none
    _ = _ := by rw [← hhist]; rfl

theorem Logged.openScope (h : e.Logged builtins) (label : String) :
    (e.openScope label).2.Logged builtins := by
  have hnew : ∀ d ∈ e.registry, d.scope ≠ ⟨e.scopes.size, e.scopes.nextSerial⟩ := by
    intro d hd he
    have := h.serial_lt d hd
    rw [he] at this
    exact Nat.lt_irrefl _ this
  refine ⟨fun s hs key => ?_, fun d hd => Nat.lt_succ_of_lt (h.serial_lt d hd)⟩
  have hs : s ∈ e.scopes.toList ++ [_] := hs
  rcases List.mem_append.mp hs with hs | hs
  · exact h.find s hs key
  · obtain rfl := List.mem_singleton.mp hs
    rw [show (e.openScope label).2.registry = e.registry from rfl, Scope.history_empty hnew]
    rfl

theorem Logged.withInner (h : e.Logged builtins) {front : List Scope} {s : Scope}
    (hi : e.scopes.inner = front ++ [s]) : (e.withInner front).Logged builtins := by
  refine ⟨fun t ht key => h.find t ?_ key, h.serial_lt⟩
  rw [ScopeStack.toList_of_inner_append hi]
  exact List.mem_append_left _ ht

/-- Scope and registry take the name together, and the others are left alone. -/
theorem Logged.declare (h : e.Logged builtins) (hc : e.Chained) (name : Name) :
    (e.declare name).2.Logged builtins := by
  obtain ⟨d, hd, hname, hscope⟩ : ∃ d : Definition,
      (e.declare name).2.registry = e.registry ++ [d] ∧ d.name = name ∧ d.scope = e.current :=
    ⟨_, rfl, rfl, rfl⟩
  refine ⟨fun t ht key => ?_, fun c hm => ?_⟩
  · rw [hc.toList_declare] at ht
    obtain ⟨s, hs, rfl⟩ := List.mem_map.mp ht
    rw [hd]
    by_cases he : s.handle = e.current
    · rw [bindHere_of_eq he]
      have hsd : d.scope = (s.bind name).handle := hscope.trans he.symm
      rw [Scope.find?_bind, Scope.history_append_of_eq hsd, lastOf_append_singleton, hname,
        Scope.history_bind, h.find s hs]
    · rw [bindHere_of_ne he, Scope.history_append_of_ne fun hsd => he (hsd ▸ hscope), h.find s hs]
  · have hnext : (e.declare name).2.scopes.nextSerial = e.scopes.nextSerial :=
      e.scopes.modify_nextSerial e.current (·.bind name)
    rw [hnext]
    rw [hd] at hm
    rcases List.mem_append.mp hm with hm | hm
    · exact h.serial_lt c hm
    · obtain rfl := List.mem_singleton.mp hm
      rw [hscope, ← hc.current]
      exact hc.linked.serial_lt _ e.scopes.innermost_mem

/-- **Each command keeps scopes and registry in agreement.** -/
theorem Logged.exec (h : e.Logged builtins) (hc : e.Chained) (command : Command) :
    (e.exec command).environment.Logged builtins := by
  cases command with
  | openScope label => exact h.openScope label
  | closeScope =>
    obtain ⟨-, he⟩ | ⟨front, s, hi, he⟩ := hc.exec_closeScope
    · rw [he]
      exact h
    · rw [he]
      exact h.withInner hi
  | declare name => exact h.declare hc name

theorem Fresh.run_logged (h : Fresh builtins fresh) (commands : List Command) :
    (fresh.run commands).Chained ∧ (fresh.run commands).Logged builtins :=
  run_induction (P := fun e => e.Chained ∧ e.Logged builtins)
    (fun _ command h => ⟨h.1.exec command, h.2.exec h.1 command⟩) ⟨h.chained, h.logged⟩ commands

/-! ## The replay -/

/-- The live scopes are the replay of what was declared. -/
structure Replays (builtins : List String) (e : Environment) : Prop where
  /-- Under each key a live scope holds the last name of its history, and nothing if there is
  none. -/
  find : ∀ s ∈ e.scopes.toList, ∀ key,
    s.find? key = lastOf key (s.history builtins e.registry)
  /-- It holds no other name. -/
  holds : ∀ s ∈ e.scopes.toList, ∀ n,
    s.Holds n ↔ lastOf n.key (s.history builtins e.registry) = some n
  /-- A declaration gives what the replay has for its key in the current scope. -/
  shadowed : ∀ name, (e.exec (.declare name)).reply =
    .declared (lastOf name.key (e.currentScope.history builtins e.registry))

theorem Logged.replays (h : e.Logged builtins) (hc : e.Chained) : e.Replays builtins where
  find := h.find
  holds s hs n := by
    rw [← h.find s hs, Scope.find?_eq_some_iff, and_iff_left rfl]
  shadowed name := by
    have hs : e.currentScope ∈ e.scopes.toList := by
      rw [hc.currentScope_eq]
      exact e.scopes.innermost_mem
    have hscope : e.scopes.scope? e.current = some e.currentScope := by
      rw [hc.scope?_current, hc.currentScope_eq]
    rw [← h.find _ hs]
    exact congrArg (fun found => Reply.declared (found.bind (·.find? name.key))) hscope

/-- **The live scopes are the replay of the registry**, in every run on a fresh environment. -/
theorem run_replays (h : Fresh builtins fresh) (commands : List Command) :
    (fresh.run commands).Replays builtins :=
  (h.run_logged commands).2.replays (h.run_logged commands).1

/-- A name of the language gives way to a declared one, and a closed scope leaves its names in the
registry only. -/
theorem run_replays_shadowed : Fresh ["total cost"] (withBuiltins "root" ["total cost"]) ∧
    ((withBuiltins "root" ["total cost"]).run [.openScope "local", .declare (.declared "tax"),
      .closeScope, .declare (.declared "total  cost"), .openScope "other"]).Replays
        ["total cost"] :=
  have h : Fresh ["total cost"] (withBuiltins "root" ["total cost"]) := .withBuiltins "root" _
  ⟨h, run_replays h _⟩

/-! ## One entry for each declaration -/

/-- The name that the command declares. -/
def Command.declared? : Command → Option Name
  | .openScope _ | .closeScope => none
  | .declare name => some name

/-- The entry that a declaration of the name makes. -/
def entry (e : Environment) (name : Name) : Definition where
  name := name
  scope := e.current
  path := e.scopes.pathOf e.current
  shadows := ((e.scopes.scope? e.current).bind (·.find? name.key)).isSome

/-- **A declaration puts one entry at the end**, and the other commands put none. -/
theorem registry_exec (e : Environment) (command : Command) :
    (e.exec command).environment.registry =
      e.registry ++ (command.declared?.map e.entry).toList := by
  cases command with
  | openScope label => exact (List.append_nil _).symm
  | closeScope =>
    rw [exec, Command.declared?, Option.map_none, Option.toList_none, List.append_nil]
    split
    · rename_i h
      exact (closeScope_ok h).1
    · rfl
  | declare name => rfl

/-- No entry is altered or removed. -/
theorem registry_prefix_run (e : Environment) (commands : List Command) :
    e.registry <+: (e.run commands).registry := by
  refine run_induction (P := fun e' => e.registry <+: e'.registry) ?_ (List.prefix_refl _) commands
  intro e' command h
  rw [registry_exec]
  exact h.trans (List.prefix_append _ _)

theorem names_registry_run (e : Environment) (commands : List Command) :
    (e.run commands).registry.map Definition.name =
      e.registry.map Definition.name ++ commands.filterMap Command.declared? := by
  induction commands generalizing e with
  | nil => exact (List.append_nil _).symm
  | cons command rest ih =>
    rw [run_cons, ih, registry_exec, List.map_append, List.append_assoc, List.filterMap_cons]
    cases command.declared? <;> rfl

/-- The entry of a declaration stands behind those that were there before it. -/
theorem registry_run_declare (e : Environment) (before after : List Command) (name : Name) :
    ∃ later, (e.run (before ++ .declare name :: after)).registry =
      (e.run before).registry ++ (e.run before).entry name :: later := by
  obtain ⟨later, hl⟩ := registry_prefix_run ((e.run before).exec (.declare name)).environment after
  refine ⟨later, ?_⟩
  rw [run_append, List.append_cons]
  exact hl.symm

theorem Fresh.registry_eq_nil {fresh : Environment} {builtins : List String}
    (h : Fresh builtins fresh) : fresh.registry = [] := by
  obtain ⟨label, rfl⟩ := h.exists_eq_withBuiltins
  rfl

/-- Every new entry was made by a declaration of the run. -/
theorem mem_registry_run_iff {commands : List Command} {d : Definition} :
    d ∈ (e.run commands).registry ↔ d ∈ e.registry ∨
      ∃ before name after, commands = before ++ .declare name :: after ∧
        d = (e.run before).entry name := by
  constructor
  · intro hd
    induction commands generalizing e with
    | nil => exact .inl hd
    | cons command rest ih =>
      rcases ih (by rwa [run_cons] at hd) with hd | ⟨before, name, after, rfl, rfl⟩
      · rw [registry_exec, List.mem_append, Option.mem_toList] at hd
        rcases hd with hd | hd
        · exact .inl hd
        · obtain ⟨name, hn, rfl⟩ := Option.map_eq_some_iff.mp hd
          obtain rfl : command = .declare name := by
            cases command <;> cases hn
            rfl
          exact .inr ⟨[], name, rest, rfl, rfl⟩
      · exact .inr ⟨command :: before, name, after, rfl, rfl⟩
  · rintro (hd | ⟨before, name, after, rfl, rfl⟩)
    · exact (registry_prefix_run e commands).mem hd
    · obtain ⟨later, hr⟩ := registry_run_declare e before after name
      rw [hr]
      exact List.mem_append_cons_self

end Environment

/-! ## What an entry tells -/

/-- `d` is the entry of a declaration of `name` in the environment `e`, whose language provides the
`builtins`. -/
structure Definition.Records (d : Definition) (builtins : List String) (e : Environment)
    (name : Name) : Prop where
  name_eq : d.name = name
  scope_eq : d.scope = e.current
  /-- The labels of all scopes that were open, from the root inwards. -/
  path_eq : d.path = e.scopes.toList.map Scope.label
  path_length : d.path.length = e.depth + 1
  /-- The scope had a name with the key: an earlier entry tells of it, or the language provides
  it. -/
  shadows_iff : d.shadows = true ↔
    (∃ c ∈ e.registry, c.scope = d.scope ∧ c.name.key = d.name.key) ∨
      (d.scope = e.scopes.root.handle ∧
        ∃ spelling ∈ builtins, normalize spelling = d.name.key)
  /-- The declaration answered with a name exactly if it shadowed one. -/
  reply : ∃ shadowed, (e.exec (.declare name)).reply = .declared shadowed ∧
    (shadowed.isSome = true ↔ d.shadows = true)

namespace Environment

variable {e fresh : Environment} {builtins : List String}

theorem Chained.path_entry (h : e.Chained) (name : Name) :
    (e.entry name).path = e.scopes.toList.map Scope.label := by
  have hlast : e.scopes.inner.length + 1 = e.scopes.size := rfl
  have hpath := h.linked.pathOf_eq (ScopeStack.getElem?_innermost hlast)
  rw [h.current, List.take_of_length_le (Nat.le_of_eq hlast.symm)] at hpath
  exact hpath

/-- A name is shadowed exactly if an earlier entry of the scope, or a builtin of the root, has its
key. -/
theorem Logged.shadows_entry_iff (h : e.Logged builtins) (hc : e.Chained) (name : Name) :
    (e.entry name).shadows = true ↔
      (∃ c ∈ e.registry, c.scope = e.current ∧ c.name.key = name.key) ∨
        (e.current = e.scopes.root.handle ∧
          ∃ spelling ∈ builtins, normalize spelling = name.key) := by
  have hmem := e.scopes.innermost_mem
  have hlast : (e.entry name).shadows =
      (lastOf name.key (e.scopes.innermost.history builtins e.registry)).isSome := by
    rw [← h.find _ hmem, entry, hc.scope?_current, Option.bind_some]
  rw [hlast, isSome_lastOf_iff, or_comm]
  simp only [Scope.mem_history, hc.linked.isRoot_iff hmem, hc.current]
  constructor
  · rintro ⟨n, ⟨hroot, spelling, hs, rfl⟩ | ⟨c, hm, hscope, rfl⟩, hk⟩
    · exact .inl ⟨hroot, spelling, hs, hk⟩
    · exact .inr ⟨c, hm, hscope, hk⟩
  · rintro (⟨hroot, spelling, hs, hk⟩ | ⟨c, hm, hscope, hk⟩)
    · exact ⟨.builtin spelling, .inl ⟨hroot, spelling, hs, rfl⟩, hk⟩
    · exact ⟨c.name, .inr ⟨c, hm, hscope, rfl⟩, hk⟩

theorem Logged.records_entry (h : e.Logged builtins) (hc : e.Chained) (name : Name) :
    (e.entry name).Records builtins e name where
  name_eq := rfl
  scope_eq := rfl
  path_eq := hc.path_entry name
  path_length := by
    rw [hc.path_entry, List.length_map]
    exact hc.depth_add_one.symm
  shadows_iff := h.shadows_entry_iff hc name
  reply := ⟨_, rfl, Iff.rfl⟩

/-- **The registry is a log** of the declarations of a run: one entry for each, in order, never
altered by what comes later, and each tells of the moment at which it was made. -/
theorem run_registered (h : Fresh builtins fresh) (commands : List Command) :
    (fresh.run commands).registry.map Definition.name = commands.filterMap Command.declared? ∧
      (∀ later, (fresh.run commands).registry <+: (fresh.run (commands ++ later)).registry) ∧
      ∀ before name after, commands = before ++ .declare name :: after →
        ∃ d later,
          (fresh.run commands).registry = (fresh.run before).registry ++ d :: later ∧
            d.Records builtins (fresh.run before) name := by
  refine ⟨?_, fun later => ?_, ?_⟩
  · rw [names_registry_run, h.registry_eq_nil]
    rfl
  · rw [run_append]
    exact registry_prefix_run _ later
  · rintro before name after rfl
    obtain ⟨hc, hl⟩ := h.run_logged before
    obtain ⟨later, hr⟩ := registry_run_declare fresh before after name
    exact ⟨_, later, hr, hl.records_entry hc name⟩

/-- The names of a scope that was closed are not shadowed in another one with its label. A builtin
is shadowed under another spelling. -/
theorem run_registered_siblings :
    Fresh ["total cost"] (withBuiltins "root" ["total cost"]) ∧
      ((withBuiltins "root" ["total cost"]).run [.openScope "local", .declare (.declared "tax"),
        .closeScope, .openScope "local", .declare (.declared "tax"), .closeScope,
        .declare (.declared "total  cost")]).registry.map (fun d => (d.path, d.shadows)) =
          [(["root", "local"], false), (["root", "local"], false), (["root"], true)] ∧
      ∃ d later, ((withBuiltins "root" ["total cost"]).run [.openScope "local",
          .declare (.declared "tax"), .closeScope, .openScope "local",
          .declare (.declared "tax"), .closeScope, .declare (.declared "total  cost")]).registry =
        ((withBuiltins "root" ["total cost"]).run [.openScope "local", .declare (.declared "tax"),
          .closeScope, .openScope "local"]).registry ++ d :: later ∧
        d.Records ["total cost"] ((withBuiltins "root" ["total cost"]).run [.openScope "local",
          .declare (.declared "tax"), .closeScope, .openScope "local"]) (.declared "tax") :=
  have h : Fresh ["total cost"] (withBuiltins "root" ["total cost"]) := .withBuiltins "root" _
  ⟨h, by decide +kernel, (run_registered h _).2.2 [.openScope "local", .declare (.declared "tax"),
    .closeScope, .openScope "local"] _ [.closeScope, .declare (.declared "total  cost")] rfl⟩

end Environment

end SpacedNames
