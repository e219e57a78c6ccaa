import SpacedNames.Proofs.Settings.Values
import SpacedNames.Proofs.Toml.Order

/-!
# Settings from documents

* `Setting`: the settings, with `Holds` (the value of a document is this one) and `Refuses` (what is
  reported of a value that is not of the setting's type).
* `WellTyped`, `IllTyped`: entries whose value is of their setting's type, and what is reported of others.
* `Setting.Told`: a setting is what the entries have for it, or else as it was.
  `ofEntries_eq_ok_iff`: this is so for all settings exactly where the entries are taken up.
* `foldlM_applyEntry_cases`: and they are, unless one is ill typed; then the first such is reported.
-/

namespace SpacedNames

open Toml Settings

/-! ## Settings -/

/-- The settings. -/
inductive Setting where
  | builtins
  | rootLabel
  | globalLabel
  | seedLabel
  | strategy
  | trace
  deriving DecidableEq, Repr

namespace Setting

/-- The key of the setting in a document. -/
def key : Setting → String
  | builtins => "builtins"
  | rootLabel => "root_label"
  | globalLabel => "global_label"
  | seedLabel => "seed_label"
  | strategy => "strategy"
  | trace => "trace"

/-- The type of the setting. -/
abbrev Value : Setting → Type
  | builtins => List String
  | rootLabel | globalLabel | seedLabel => String
  | strategy => Strategy
  | trace => Bool

/-- What the settings have for it. -/
def get : (f : Setting) → Settings → f.Value
  | builtins, s => s.builtins
  | rootLabel, s => s.rootLabel
  | globalLabel, s => s.globalLabel
  | seedLabel, s => s.seedLabel
  | strategy, s => s.strategy
  | trace, s => s.trace

/-- The settings with another value for it. -/
def put : (f : Setting) → Settings → f.Value → Settings
  | builtins, s, x => { s with builtins := x }
  | rootLabel, s, x => { s with rootLabel := x }
  | globalLabel, s, x => { s with globalLabel := x }
  | seedLabel, s, x => { s with seedLabel := x }
  | strategy, s, x => { s with strategy := x }
  | trace, s, x => { s with trace := x }

/-- The value of a document is this one of the setting's type. -/
def Holds : (f : Setting) → Node → f.Value → Prop
  | builtins, node, x => node.IsTexts x
  | rootLabel, node, x | globalLabel, node, x | seedLabel, node, x => node.IsText x
  | strategy, node, x => node.IsStrategy x
  | trace, node, x => node.IsScalar (.boolean x)

/-- What is reported of a value that is not of the setting's type, under a key at this place. -/
def Refuses : Setting → Nat → Node → EntryFault → Prop
  | builtins => RefusedTexts
  | rootLabel | globalLabel | seedLabel => RefusedText
  | strategy => RefusedStrategy
  | trace => RefusedScalar Scalar.boolean .boolean

/-- How the value of a document is read. -/
def read : (f : Setting) → Nat → Node → Except EntryFault f.Value
  | builtins => readTexts
  | rootLabel | globalLabel | seedLabel => readText
  | strategy => readStrategy
  | trace => readBool

/-- **Each setting is read as what the document has for it**, and reported where that is not of its
type. -/
theorem sorts_read (f : Setting) (key : Nat) (node : Node) :
    Sorts (f.read key node) (f.Holds node) (f.Refuses key node) := by
  cases f with
  | builtins => exact sorts_readTexts key node
  | rootLabel | globalLabel | seedLabel => exact readsScalar_readText.sorts key node
  | strategy => exact sorts_readStrategy key node
  | trace => exact readsScalar_readBool.sorts key node

theorem key_injective : Function.Injective key := by
  intro f g h
  cases f <;> cases g <;> first | rfl | exact absurd h (by decide)

@[simp] theorem get_put_self (f : Setting) (s : Settings) (x : f.Value) : f.get (f.put s x) = x := by
  cases f <;> rfl

theorem get_put_of_ne {f g : Setting} (h : f ≠ g) (s : Settings) (x : g.Value) :
    f.get (g.put s x) = f.get s := by
  cases f <;> cases g <;> first | rfl | exact absurd rfl h

/-- Settings with the same values are the same. -/
theorem eq_of_get_eq {s s' : Settings} (h : ∀ f : Setting, f.get s = f.get s') : s = s' := by
  obtain ⟨_, _, _, _, _, _⟩ := s
  obtain ⟨_, _, _, _, _, _⟩ := s'
  simp only [Settings.mk.injEq]
  exact ⟨h .builtins, h .rootLabel, h .globalLabel, h .seedLabel, h .strategy, h .trace⟩

end Setting

/-! ## Entries -/

/-- An entry under the key of a setting has a value of the setting's type. Any other key will do. -/
def WellTyped (e : Key × Node) : Prop :=
  ∀ f : Setting, e.1.name = f.key → ∃ x, f.Holds e.2 x

/-- What is reported of an entry under the key of a setting. -/
def IllTyped (e : Key × Node) (fault : EntryFault) : Prop :=
  ∃ f : Setting, e.1.name = f.key ∧ f.Refuses e.1.mark e.2 fault

section Entries

variable {s s' : Settings} {key : Key} {node : Node} {e : Key × Node} {es : Entries}
  {fault : EntryFault}

theorem applyEntry_of_key {f : Setting} (h : key.name = f.key) :
    s.applyEntry key node = (f.read key.mark node).map (f.put s) := by
  unfold applyEntry
  rw [h]
  cases f <;> rfl

theorem applyEntry_of_other (h : ∀ f : Setting, key.name ≠ f.key) :
    s.applyEntry key node = .ok s := by
  unfold applyEntry
  split
  · exact absurd ‹_› (h .builtins)
  · exact absurd ‹_› (h .rootLabel)
  · exact absurd ‹_› (h .globalLabel)
  · exact absurd ‹_› (h .seedLabel)
  · exact absurd ‹_› (h .strategy)
  · exact absurd ‹_› (h .trace)
  · rfl

/-- An entry is taken up exactly if it is well typed. -/
theorem exists_applyEntry_iff : (∃ s', s.applyEntry e.1 e.2 = .ok s') ↔ WellTyped e := by
  by_cases h : ∃ f : Setting, e.1.name = f.key
  · obtain ⟨f, hf⟩ := h
    have hsorts := f.sorts_read e.1.mark e.2
    have hwell : WellTyped e ↔ ∃ x, f.Holds e.2 x :=
      ⟨fun h => h f hf, fun h g hg => Setting.key_injective (hf.symm.trans hg) ▸ h⟩
    rw [applyEntry_of_key hf, hwell]
    simp only [← hsorts.ok_iff]
    cases f.read e.1.mark e.2 <;> simp [Except.map]
  · rw [applyEntry_of_other (not_exists.mp h)]
    exact iff_of_true ⟨s, rfl⟩ fun f hf => absurd ⟨f, hf⟩ h

/-- An entry that is not taken up is reported as ill typed. -/
theorem applyEntry_eq_error_iff : s.applyEntry e.1 e.2 = .error fault ↔ IllTyped e fault := by
  by_cases h : ∃ f : Setting, e.1.name = f.key
  · obtain ⟨f, hf⟩ := h
    have hsorts := f.sorts_read e.1.mark e.2
    have hill : IllTyped e fault ↔ f.Refuses e.1.mark e.2 fault :=
      ⟨fun ⟨g, hg, h⟩ => Setting.key_injective (hf.symm.trans hg) ▸ h, fun h => ⟨f, hf, h⟩⟩
    rw [applyEntry_of_key hf, hill, ← hsorts.error_iff]
    cases f.read e.1.mark e.2 <;> simp [Except.map]
  · rw [applyEntry_of_other (not_exists.mp h)]
    exact iff_of_false nofun fun ⟨f, hf, _⟩ => h ⟨f, hf⟩

/-! ## Documents -/

/-- The setting is what the entries have for it, or, if they have nothing, as it was before. -/
def Setting.Told (f : Setting) (es : Entries) (before after : Settings) : Prop :=
  (∀ e ∈ es, e.1.name = f.key → f.Holds e.2 (f.get after)) ∧
    ((∀ e ∈ es, e.1.name ≠ f.key) → f.get after = f.get before)

namespace Setting

variable {f : Setting}

theorem told_of_absent (h : ∀ e ∈ es, e.1.name ≠ f.key) :
    f.Told es s s' ↔ f.get s' = f.get s :=
  ⟨fun hf => hf.2 h, fun hf => ⟨fun e he hname => absurd hname (h e he), fun _ => hf⟩⟩

theorem told_nil : f.Told [] s s' ↔ f.get s' = f.get s :=
  told_of_absent fun _ h => absurd h List.not_mem_nil

theorem told_cons_of_ne (h : e.1.name ≠ f.key) : f.Told (e :: es) s s' ↔ f.Told es s s' := by
  simp [Told, h]

/-- The only entry under the setting's key. -/
theorem told_cons_of_eq (h : e.1.name = f.key) (hes : ∀ d ∈ es, d.1.name ≠ f.key) :
    f.Told (e :: es) s s' ↔ f.Holds e.2 (f.get s') := by
  constructor
  · exact fun hf => hf.1 e List.mem_cons_self h
  · refine fun hf => ⟨List.forall_mem_cons.mpr ⟨fun _ => hf, fun d hd hname => ?_⟩, fun hnot => ?_⟩
    · exact absurd hname (hes d hd)
    · exact absurd h (hnot e List.mem_cons_self)

theorem told_put_of_ne {g : Setting} (h : f ≠ g) (x : g.Value) :
    f.Told es (g.put s x) s' ↔ f.Told es s s' := by
  rw [Told, get_put_of_ne h, Told]

end Setting

/-- **The entries are taken up** exactly if each setting is what they have for it. -/
theorem foldlM_applyEntry_eq_ok_iff (hes : es.InOrder) :
    es.foldlM (fun s e => s.applyEntry e.1 e.2) s = .ok s' ↔ ∀ f : Setting, f.Told es s s' := by
  induction es generalizing s with
  | nil =>
    constructor
    · intro h f
      cases h
      exact Setting.told_nil.mpr rfl
    · intro h
      rw [Setting.eq_of_get_eq fun f => Setting.told_nil.mp (h f)]
      rfl
  | cons e es ih =>
    obtain ⟨hfirst, hes⟩ := List.pairwise_cons.mp hes
    rw [List.foldlM_cons]
    by_cases h : ∃ f : Setting, e.1.name = f.key
    · obtain ⟨g, hg⟩ := h
      have hrest : ∀ d ∈ es, d.1.name ≠ g.key := fun d hd hname =>
        (hfirst d.1 (List.mem_map_of_mem hd)).1 (hg.trans hname.symm)
      have hsorts := g.sorts_read e.1.mark e.2
      rw [applyEntry_of_key hg]
      cases hread : g.read e.1.mark e.2 with
      | error fault =>
        refine iff_of_false nofun fun h => ?_
        have hholds := (Setting.told_cons_of_eq hg hrest).mp (h g)
        cases hread.symm.trans ((hsorts.ok_iff _).mpr hholds)
      | ok x =>
        refine (ih hes).trans (forall_congr' fun f => ?_)
        -- The setting of the entry is what the entry has for it; the others are not touched.
        by_cases hf : f = g
        · subst hf
          rw [Setting.told_cons_of_eq hg hrest, Setting.told_of_absent hrest, Setting.get_put_self,
            ← hsorts.ok_iff, hread, Except.ok.injEq, eq_comm]
        · rw [Setting.told_put_of_ne hf, Setting.told_cons_of_ne fun hname =>
            hf (Setting.key_injective (hname.symm.trans hg))]
    · have hnot := not_exists.mp h
      rw [applyEntry_of_other hnot]
      exact (ih hes).trans (forall_congr' fun f => (Setting.told_cons_of_ne (hnot f)).symm)

/-- **The entries are taken up** exactly if all are well typed, and else the first that is not is
reported. -/
theorem foldlM_applyEntry_cases :
    ((∃ s', es.foldlM (fun s e => s.applyEntry e.1 e.2) s = .ok s') ↔ ∀ e ∈ es, WellTyped e) ∧
      ∀ fault, es.foldlM (fun s e => s.applyEntry e.1 e.2) s = .error fault ↔
        FirstFault WellTyped IllTyped es fault := by
  induction es generalizing s with
  | nil => exact ⟨iff_of_true ⟨s, rfl⟩ nofun, fun fault => iff_of_false nofun not_firstFault_nil⟩
  | cons e es ih =>
    rw [List.forall_mem_cons, List.foldlM_cons]
    simp only [firstFault_cons_iff]
    rw [← exists_applyEntry_iff (s := s)]
    simp only [← applyEntry_eq_error_iff (s := s)]
    cases happly : s.applyEntry e.1 e.2 with
    | error fault => simp [bind, Except.bind]
    | ok s₁ =>
      obtain ⟨hok, herror⟩ := ih (s := s₁)
      simp only [← hok, ← herror]
      simp [bind, Except.bind]

theorem ofEntries_eq_ok_iff (hes : es.InOrder) :
    ofEntries es = .ok s ↔ ∀ f : Setting, f.Told es {} s :=
  foldlM_applyEntry_eq_ok_iff hes

theorem exists_ofEntries_iff : (∃ s, ofEntries es = .ok s) ↔ ∀ e ∈ es, WellTyped e :=
  foldlM_applyEntry_cases.1

theorem ofEntries_eq_error_iff : ofEntries es = .error fault ↔ FirstFault WellTyped IllTyped es fault :=
  foldlM_applyEntry_cases.2 fault

end Entries

end SpacedNames
