import SpacedNames.Proofs.Resolver.Paths

/-!
# What the language provides

The root scope is meant for the names of the language. A declaration goes to the current scope, and
when the global scope has been closed this is the root.

* `Provides builtins spelling`: the language provides the name that is spelled so. Of several
  spellings with one key only the last one counts.
* `Environment.KeepsLanguage`: the root scope holds what the language provides, and nothing else is
  told to be a name of the language. `keepsLanguage_iff`: this is so exactly if the registry has no
  definition of the root.
* `Resolver.run_keepsLanguage_iff`: after a run it is so exactly if no name was declared outside of
  all opened scopes, of which the global one is the first. `not_keepsLanguage_globalClosed`: names can
  be declared there.
-/

namespace SpacedNames

open Text

/-- The spelling is the last one with its key among the `builtins`. -/
def Provides (builtins : List String) (spelling : String) : Prop :=
  (builtins.filter (normalize · = normalize spelling)).getLast? = some spelling

theorem mem_of_lastOf {key : String} {names : List Name} {n : Name}
    (h : lastOf key names = some n) : n ∈ names ∧ n.key = key := by
  have hm := List.mem_of_getLast? h
  rw [List.mem_filter, decide_eq_true_eq] at hm
  exact hm

theorem lastOf_builtins (key : String) (builtins : List String) :
    lastOf key (builtins.map Name.builtin) =
      (builtins.filter (normalize · = key)).getLast?.map Name.builtin := by
  rw [lastOf, List.filter_map, List.getLast?_map]
  rfl

namespace Environment

variable {e : Environment} {builtins : List String}

/-- The root scope is the language's own: all its names come from the language, and a name is told to
be one of the language exactly if the language provides it. -/
structure KeepsLanguage (builtins : List String) (e : Environment) : Prop where
  origin : ∀ n, e.scopes.root.Holds n → n.origin = .builtin
  isBuiltin_iff : ∀ spelling, e.isBuiltin spelling = true ↔ Provides builtins spelling

/-- The root never gets another handle. -/
theorem Chained.root_handle (h : e.Chained) : e.scopes.root.handle = ⟨0, 0⟩ := by
  have hslot := h.linked.slot 0 e.scopes.root rfl
  have hserial := h.linked.root_serial
  cases hr : e.scopes.root.handle
  rw [hr] at hslot hserial
  cases hslot
  cases hserial
  rfl

theorem Chained.current_eq_root_iff (h : e.Chained) :
    e.current = e.scopes.root.handle ↔ e.scopes.inner = [] := by
  rw [← h.current]
  constructor
  · intro he
    rcases e.scopes.inner_cases with hi | ⟨front, s, hi⟩
    · exact hi
    · have hlast : e.scopes.inner.length + 1 = e.scopes.size := rfl
      have hslot := h.linked.slot _ _ (ScopeStack.getElem?_innermost hlast)
      rw [he, h.root_handle, eq_comm, List.length_eq_zero_iff] at hslot
      exact hslot
  · intro hi
    rw [ScopeStack.innermost_of_inner_nil hi]

/-- The root holds under each key the last builtin, or what was declared in it since. -/
theorem Logged.find?_root (h : e.Logged builtins) (hc : e.Chained) (key : String) :
    e.scopes.root.find? key =
      (lastOf key ((e.registry.filter (·.scope = e.scopes.root.handle)).map Definition.name)).or
        (lastOf key (builtins.map Name.builtin)) := by
  have hroot : e.scopes.root.isRoot = true := (hc.linked.isRoot_iff List.mem_cons_self).mpr rfl
  rw [h.find _ List.mem_cons_self, Scope.history, if_pos hroot, lastOf_append]

/-- **The language keeps its scope exactly if nothing was declared there**, as far as the registry
tells of declared names only. -/
theorem Logged.keepsLanguage_iff (h : e.Logged builtins) (hc : e.Chained)
    (hd : ∀ d ∈ e.registry, d.name.origin = .declared) :
    e.KeepsLanguage builtins ↔ ∀ d ∈ e.registry, d.scope ≠ e.scopes.root.handle := by
  constructor
  · rintro hk d hm hscope
    have hown : d.name ∈
        (e.registry.filter (·.scope = e.scopes.root.handle)).map Definition.name :=
      List.mem_map_of_mem (List.mem_filter.mpr ⟨hm, decide_eq_true hscope⟩)
    obtain ⟨n, hn⟩ := Option.isSome_iff_exists.mp (isSome_lastOf_iff.mpr ⟨_, hown, rfl⟩)
    have hfind := h.find?_root hc d.name.key
    rw [hn, Option.some_or] at hfind
    obtain ⟨c, hc, rfl⟩ := List.mem_map.mp (mem_of_lastOf hn).1
    have horigin := hk.origin _ (Scope.find?_eq_some_iff.mp hfind).1
    rw [hd c (List.mem_of_mem_filter hc)] at horigin
    cases horigin
  · intro hno
    have hown : e.registry.filter (·.scope = e.scopes.root.handle) = [] :=
      List.filter_eq_nil_iff.mpr fun d hm => by simpa using hno d hm
    have hfind : ∀ key, e.scopes.root.find? key = lastOf key (builtins.map Name.builtin) := by
      intro key
      rw [h.find?_root hc, hown]
      exact Option.none_or
    refine ⟨fun n hn => ?_, fun spelling => ?_⟩
    · have hn := Scope.find?_eq_some_iff.mpr ⟨hn, rfl⟩
      rw [hfind] at hn
      obtain ⟨spelling, -, rfl⟩ := List.mem_map.mp (mem_of_lastOf hn).1
      rfl
    · rw [isBuiltin, Scope.contains, Scope.get?, hfind, lastOf_builtins, Provides]
      cases (builtins.filter (normalize · = normalize spelling)).getLast? with
      | none => simp
      | some last => simp [Name.builtin, Option.filter]

end Environment

namespace Resolver

variable {settings : Settings} {commands : List Command}

/-- A name that a command declares comes from the program. -/
theorem Command.origin_of_declared? {command : Command} {name : Name}
    (h : command.declared? = some name) : name.origin = .declared := by
  cases command with
  | declare spelling =>
    cases h
    rfl
  | declareNode node =>
    obtain ⟨spelling, -, rfl⟩ := Option.map_eq_some_iff.mp h
    rfl
  | openScope | closeScope | pushLabel | pushNode | popLabel | start | offer | longestMatch
  | recognize | setSink => cases h

/-- The definitions of the root are those whose path ends there. -/
theorem run_registry (settings : Settings) (commands : List Command) :
    ∀ d ∈ ((ofSettings settings).run commands).environment.registry,
      d.name.origin = .declared ∧ (d.scope = ⟨0, 0⟩ ↔ d.path = [settings.rootLabel]) := by
  induction commands using List.reverseRecOn with
  | nil => exact fun d hm => absurd hm List.not_mem_nil
  | append_singleton commands command ih =>
    have h := run_told settings commands
    intro d hm
    rw [run_concat, registry_exec] at hm
    rcases List.mem_append.mp hm with hm | hm
    · exact ih d hm
    · obtain ⟨name, hname, rfl⟩ := Option.map_eq_some_iff.mp (Option.mem_toList.mp hm)
      refine ⟨Command.origin_of_declared? hname, ?_⟩
      have hscope : (((ofSettings settings).run commands).environment.entry name).scope =
          ((ofSettings settings).run commands).environment.current := rfl
      rw [h.chained.path_entry, ← h.chained.root_handle, hscope, h.chained.current_eq_root_iff,
        h.path_eq, pathAfter, ← h.scopes]
      simp

/-- **The language keeps its scope exactly as long as all names are declared inside a scope that was
opened**, the global one or another. -/
theorem run_keepsLanguage_iff (settings : Settings) (commands : List Command) :
    ((ofSettings settings).run commands).environment.KeepsLanguage settings.builtins ↔
      ∀ declared ∈ declarations settings commands, declared.2 ≠ [settings.rootLabel] := by
  have hreg := run_registry settings commands
  obtain ⟨hc, hl⟩ := (fresh_language settings).run_logged
    (.openScope settings.globalLabel :: (ofSettings settings).scopeCommands commands)
  rw [← environment_run_ofSettings] at hc hl
  rw [hl.keepsLanguage_iff hc fun d hd => (hreg d hd).1, ← registry_run_eq, List.forall_mem_map,
    hc.root_handle]
  exact forall₂_congr fun d hd => not_congr (hreg d hd).2

/-- When the global scope is closed, a respelled name of the language is replaced by one of the
program, which is then taken for a name of the language. -/
theorem not_keepsLanguage_globalClosed :
    ((ofSettings { builtins := ["string length"] }).run
        [.closeScope, .declare "string  length"]).environment.isBuiltin "string length" = false ∧
      ((ofSettings { builtins := ["string length"] }).run
        [.closeScope, .declare "string  length"]).environment.isBuiltin "string  length" = true ∧
      ¬ ((ofSettings { builtins := ["string length"] }).run
        [.closeScope, .declare "string  length"]).environment.KeepsLanguage ["string length"] := by
  have hlost : ((ofSettings { builtins := ["string length"] }).run
      [.closeScope, .declare "string  length"]).environment.isBuiltin "string length" = false := by
    decide +kernel
  refine ⟨hlost, by decide +kernel, fun h => ?_⟩
  have hprovided : Provides ["string length"] "string length" := by
    unfold Provides
    decide +kernel
  rw [(h.isBuiltin_iff _).mpr hprovided] at hlost
  cases hlost

end Resolver

end SpacedNames
