import SpacedNames.Proofs.Scoping.Registry
import SpacedNames.Proofs.Text.Quoted

/-!
# The lines of the dump

An entry of the dump is meant to be one line. The label of a scope and a name stand between
quotation marks there, so they may hold line ends; the labels of a path do not.

* `Scope.newline_not_mem_line`, `Definition.count_line`: the entry of a scope is one line, that of a
  definition has the line ends of its path.
* `Environment.OneEntryPerLine`: the lines of the dump are its entries.
* `Environment.run_dump`: how many lines the dump of a run has, and for which runs they are its
  entries.
-/

namespace SpacedNames

open Text

/-! ## Entries -/

/-- The entry of a scope without the line end after it. -/
def Scope.line (s : Scope) : List Char :=
  s.entry.toList.dropLast

/-- The entry of a definition without the line end after it. -/
def Definition.line (d : Definition) : List Char :=
  d.entry.toList.dropLast

/-- The characters of the labels of a path. -/
def Definition.pathChars (d : Definition) : List Char :=
  d.path.flatMap String.toList

theorem Scope.exists_entry_eq (s : Scope) :
    ∃ line, s.entry.toList = line ++ ['\n'] ∧ '\n' ∉ line := by
  refine ⟨List.replicate (2 * s.handle.depth) ' ' ++ s.handle.describe.toList ++ ' ' ::
    (quoted s.label).toList ++ " (".toList ++ (toString s.size).toList ++ " symbols)".toList,
    by simp [entry], ?_⟩
  simp [Handle.describe, newline_not_mem_quoted, newline_not_mem_toDigits]

theorem Definition.exists_entry_eq (d : Definition) :
    ∃ line, d.entry.toList = line ++ ['\n'] ∧ line.count '\n' = d.pathChars.count '\n' := by
  refine ⟨"def ".toList ++ (quoted d.name.spelling).toList ++ " in ".toList ++
    (" > ".intercalate d.path).toList ++ (if d.shadows then " (shadows)" else "").toList,
    by simp [entry], ?_⟩
  have hpath : (" > ".intercalate d.path).toList.count '\n' = d.pathChars.count '\n' := by
    rw [String.toList_intercalate, count_intercalate (by decide)]
    rfl
  have hshadow : (if d.shadows then " (shadows)" else "").toList.count '\n' = 0 := by
    split <;> decide
  simp only [List.count_append, hpath, hshadow,
    List.count_eq_zero_of_not_mem (newline_not_mem_quoted _)]
  simp

theorem Scope.toList_entry (s : Scope) : s.entry.toList = s.line ++ ['\n'] := by
  obtain ⟨line, h, -⟩ := s.exists_entry_eq
  rw [Scope.line, h, List.dropLast_concat]

/-- **The entry of a live scope is one line**, whatever its label. -/
theorem Scope.newline_not_mem_line (s : Scope) : '\n' ∉ s.line := by
  obtain ⟨line, h, hline⟩ := s.exists_entry_eq
  rwa [Scope.line, h, List.dropLast_concat]

theorem Definition.toList_entry (d : Definition) : d.entry.toList = d.line ++ ['\n'] := by
  obtain ⟨line, h, -⟩ := d.exists_entry_eq
  rw [Definition.line, h, List.dropLast_concat]

/-- **The entry of a definition has the line ends of its path**, and none of its name. -/
theorem Definition.count_line (d : Definition) :
    d.line.count '\n' = d.pathChars.count '\n' := by
  obtain ⟨line, h, hline⟩ := d.exists_entry_eq
  rwa [Definition.line, h, List.dropLast_concat]

namespace Environment

variable {e fresh : Environment} {builtins : List String}

/-! ## The dump -/

/-- The entries of the dump: the live scopes from the root inwards, then the registry in order. -/
def entryLines (e : Environment) : List (List Char) :=
  e.scopes.toList.map Scope.line ++ e.registry.map Definition.line

/-- The lines of the dump are its entries. -/
def OneEntryPerLine (e : Environment) : Prop :=
  InLines e.dump.toList e.entryLines

/-- Line ends in the paths of the registry. -/
def pathBreaks (e : Environment) : Nat :=
  (e.registry.flatMap Definition.pathChars).count '\n'

theorem toList_dump (e : Environment) : e.dump.toList = ended e.entryLines := by
  simp [dump, ended, entryLines, String.toList_join, List.flatMap_def, Scope.toList_entry,
    Definition.toList_entry, Function.comp_def]

theorem count_flatten_entryLines (e : Environment) :
    e.entryLines.flatten.count '\n' = e.pathBreaks := by
  have hscopes : (e.scopes.toList.map Scope.line).flatten.count '\n' = 0 := by
    simp [List.count_eq_zero, Scope.newline_not_mem_line]
  have hdefs : (e.registry.map Definition.line).flatten.count '\n' = e.pathBreaks := by
    simp [pathBreaks, List.count_flatten, List.flatMap_def, Function.comp_def, Definition.count_line]
  rw [entryLines, List.flatten_append, List.count_append, hscopes, hdefs, Nat.zero_add]

theorem length_entryLines (e : Environment) :
    e.entryLines.length = e.scopes.size + e.registry.length := by
  rw [entryLines, List.length_append, List.length_map, List.length_map]
  rfl

/-- **The dump always consists of lines.** -/
theorem exists_inLines_dump (e : Environment) : ∃ lines, InLines e.dump.toList lines ∧
    lines.length = e.scopes.size + e.registry.length + e.pathBreaks := by
  obtain ⟨lines, h⟩ := exists_inLines_ended e.entryLines
  rw [← toList_dump] at h
  refine ⟨lines, h, ?_⟩
  rw [h.length_eq, toList_dump, count_ended, length_entryLines, count_flatten_entryLines]

theorem oneEntryPerLine_iff_pathBreaks : e.OneEntryPerLine ↔ e.pathBreaks = 0 := by
  rw [OneEntryPerLine, toList_dump, inLines_ended_iff, ← List.count_eq_zero,
    count_flatten_entryLines]

theorem oneEntryPerLine_iff :
    e.OneEntryPerLine ↔ ∀ d ∈ e.registry, ∀ label ∈ d.path, '\n' ∉ label.toList := by
  rw [oneEntryPerLine_iff_pathBreaks, pathBreaks, List.count_eq_zero]
  simp only [List.mem_flatMap, Definition.pathChars, not_exists, not_and]

/-- A path has the labels of the scopes that were open at its declaration. -/
theorem Fresh.run_oneEntryPerLine_iff (h : Fresh builtins fresh) (commands : List Command) :
    (fresh.run commands).OneEntryPerLine ↔
      ∀ before name after, commands = before ++ .declare name :: after →
        ∀ s ∈ (fresh.run before).scopes.toList, '\n' ∉ s.label.toList := by
  have hpath (before : List Command) (name : Name) : ((fresh.run before).entry name).path =
      (fresh.run before).scopes.toList.map Scope.label :=
    (h.chained.run before).path_entry name
  rw [oneEntryPerLine_iff]
  constructor
  · rintro hclean before name after rfl s hs
    refine hclean _ (mem_registry_run_iff.mpr (.inr ⟨before, name, after, rfl, rfl⟩)) _ ?_
    rw [hpath]
    exact List.mem_map_of_mem hs
  · intro hclean d hd label hlabel
    rcases mem_registry_run_iff.mp hd with hd | ⟨before, name, after, rfl, rfl⟩
    · rw [h.registry_eq_nil] at hd
      cases hd
    · rw [hpath] at hlabel
      obtain ⟨s, hs, rfl⟩ := List.mem_map.mp hlabel
      exact hclean before name after rfl s hs

/-- **The lines of the dump of a run.** There are as many as live scopes and definitions, and one
more for each line end in the paths of the definitions. They are one for each live scope and then
one for each definition exactly if no name was ever declared inside a scope whose label holds a line
end. -/
theorem run_dump (h : Fresh builtins fresh) (commands : List Command) :
    (∃ lines, InLines (fresh.run commands).dump.toList lines ∧
      lines.length = (fresh.run commands).scopes.size + (fresh.run commands).registry.length +
        (fresh.run commands).pathBreaks) ∧
    ((fresh.run commands).OneEntryPerLine ↔ (fresh.run commands).pathBreaks = 0) ∧
    ((fresh.run commands).OneEntryPerLine ↔
      ∀ before name after, commands = before ++ .declare name :: after →
        ∀ s ∈ (fresh.run before).scopes.toList, '\n' ∉ s.label.toList) :=
  ⟨exists_inLines_dump _, oneEntryPerLine_iff_pathBreaks, h.run_oneEntryPerLine_iff commands⟩

/-- A name with a line end stays on its line. -/
theorem run_dump_name : Fresh ["tax"] (withBuiltins "root" ["tax"]) ∧
    (∃ lines, InLines ((withBuiltins "root" ["tax"]).run
        [.openScope "local", .declare (.declared "total\ncost")]).dump.toList lines ∧
      lines.length = 2 + 1 + 0) ∧
    ((withBuiltins "root" ["tax"]).run
      [.openScope "local", .declare (.declared "total\ncost")]).OneEntryPerLine :=
  have h : Fresh ["tax"] (withBuiltins "root" ["tax"]) := .withBuiltins "root" _
  have hd := run_dump h [.openScope "local", .declare (.declared "total\ncost")]
  ⟨h, hd.1, hd.2.1.mpr (by decide +kernel)⟩

/-- Three entries take four lines once a name is declared inside a scope whose label holds a line
end. -/
theorem not_oneEntryPerLine_label : ¬ ∃ lines,
    InLines (plain.run [.openScope "a\nb", .declare (.declared "x")]).dump.toList lines ∧
      lines.length = (plain.run [.openScope "a\nb", .declare (.declared "x")]).scopes.size +
        (plain.run [.openScope "a\nb", .declare (.declared "x")]).registry.length := by
  rintro ⟨lines, h, hlen⟩
  rw [h.length_eq] at hlen
  revert hlen
  decide +kernel

end Environment

end SpacedNames
