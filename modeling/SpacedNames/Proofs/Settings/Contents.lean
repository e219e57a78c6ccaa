import SpacedNames.Proofs.Settings.Documents

/-!
# What documents have for settings

* `Node.bare`: a value without its places, and without how it was written.
* `Entries.settings`: the settings that a document has values for, and these values.
  `unplaced_ofEntries`: nothing else counts, except for the place of a fault.
* `told_iff_settings`: for what the settings become, their order does not count either.
* `IsDocument`: the text is a document with these entries. `Settings.ofText_told`: the settings that it
  gives.
-/

namespace SpacedNames

open Toml Settings

/-! ## Values without their places -/

namespace Toml

mutual

/-- The value without its places, and without how it was written. -/
def Node.bare : Node → Node
  | .scalar _ value => .scalar 0 value
  | .array _ items | .tables _ items => .array 0 (bareItems items)
  | .table _ _ entries => .table none .braces (bareEntries entries)

/-- The values of an array without their places. -/
def bareItems : List Node → List Node
  | [] => []
  | x :: xs => x.bare :: bareItems xs

/-- The entries of a table without their places. -/
def bareEntries : List (Key × Node) → List (Key × Node)
  | [] => []
  | (key, x) :: es => (⟨key.name, 0⟩, x.bare) :: bareEntries es

end

theorem bareItems_eq_map (items : List Node) : bareItems items = items.map Node.bare := by
  induction items with
  | nil => rfl
  | cons x xs ih => rw [bareItems, ih, List.map_cons]

end Toml

section Bare

variable {α β : Type} {key key' : Nat} {node value : Node}

/-- A reading without the place of its fault. -/
def unplaced (reading : Except EntryFault α) : Except TypeFault α :=
  reading.mapError Prod.snd

theorem unplaced_eq_ok_iff {reading : Except EntryFault α} {x : α} :
    unplaced reading = .ok x ↔ reading = .ok x := by
  cases reading <;> simp [unplaced, Except.mapError]

theorem unplaced_eq_error_iff {reading : Except EntryFault α} {cause : TypeFault} :
    unplaced reading = .error cause ↔ ∃ mark, reading = .error (mark, cause) := by
  cases reading <;> simp [unplaced, Except.mapError, Prod.ext_iff]

theorem unplaced_bind (reading : Except EntryFault α) (f : α → Except EntryFault β) :
    unplaced (reading >>= f) = unplaced reading >>= fun x => unplaced (f x) := by
  cases reading <;> rfl

theorem unplaced_map (reading : Except EntryFault α) (f : α → β) :
    unplaced (reading.map f) = (unplaced reading).map f := by
  cases reading <;> rfl

theorem unplaced_mapM {γ : Type} (f : γ → Except EntryFault α) (xs : List γ) :
    unplaced (xs.mapM f) = xs.mapM fun x => unplaced (f x) := by
  induction xs with
  | nil => rfl
  | cons x xs ih =>
    simp only [List.mapM_cons, unplaced_bind, ih]
    rfl

theorem isScalar_bare {value : Scalar} : node.bare.IsScalar value ↔ node.IsScalar value := by
  cases node <;> simp [Node.IsScalar, Node.bare]

theorem form_bare (node : Node) : node.bare.form = node.form := by
  cases node with
  | scalar mark value => cases value <;> rfl
  | array | table | tables => rfl

/-- A reading of one kind takes the same values without their places, and shows the others alike. -/
theorem ReadsScalar.bare {reading : Nat → Node → Except EntryFault α} {kind : α → Scalar}
    {expected : Expectation} (h : ReadsScalar reading kind expected) :
    unplaced (reading key' node.bare) = unplaced (reading key node) := by
  by_cases hnode : ∃ x, node.IsScalar (kind x)
  · obtain ⟨x, mark, rfl⟩ := hnode
    rw [Node.bare, h.ok, h.ok]
  · have hnot := not_exists.mp hnode
    have hnot' : ∀ x, ¬ node.bare.IsScalar (kind x) := fun x hx => hnot x (isScalar_bare.mp hx)
    rw [h.other key hnot, h.other key' hnot']
    simp [unplaced, Except.mapError, mismatch, faultAt, form_bare]

theorem mapM_readText_bare (items : List Node) :
    unplaced ((bareItems items).mapM (readText key')) = unplaced (items.mapM (readText key)) := by
  rw [bareItems_eq_map, List.mapM_map, unplaced_mapM, unplaced_mapM]
  congr 1
  exact funext fun x => readsScalar_readText.bare

theorem readTexts_bare : unplaced (readTexts key' node.bare) = unplaced (readTexts key node) := by
  cases node with
  | scalar mark value => cases value <;> rfl
  | table => rfl
  | array | tables => exact mapM_readText_bare _

theorem readTagged_bare {tag tag' : Key} (h : tag'.name = tag.name) :
    unplaced (readTagged tag' value.bare) = unplaced (readTagged tag value) := by
  unfold readTagged
  rw [h]
  cases strategyOf? tag.name with
  | none => rfl
  | some strategy =>
    cases value with
    | scalar mark value => cases value <;> rfl
    | table mark kind entries => cases entries <;> rfl
    | array mark items | tables mark items => cases items <;> rfl

theorem readStrategy_bare :
    unplaced (readStrategy key' node.bare) = unplaced (readStrategy key node) := by
  cases node with
  | scalar mark value =>
    cases value with
    | text name =>
      simp only [readStrategy, Node.bare]
      cases strategyOf? name <;> rfl
    | integer | floating | boolean | dateTime => rfl
  | array | tables => rfl
  | table mark kind entries =>
    cases entries with
    | nil => rfl
    | cons e es =>
      cases es with
      | nil => exact readTagged_bare rfl
      | cons => rfl

/-- **A value is read by what it is**, wherever it stands and however it is written. -/
theorem Setting.read_bare (f : Setting) (key key' : Nat) (node : Node) :
    unplaced (f.read key' node.bare) = unplaced (f.read key node) := by
  cases f with
  | builtins => exact readTexts_bare
  | rootLabel | globalLabel | seedLabel => exact readsScalar_readText.bare
  | strategy => exact readStrategy_bare
  | trace => exact readsScalar_readBool.bare

theorem Setting.holds_bare (f : Setting) (node : Node) (x : f.Value) :
    f.Holds node.bare x ↔ f.Holds node x := by
  rw [← (f.sorts_read 0 node.bare).ok_iff, ← (f.sorts_read 0 node).ok_iff, ← unplaced_eq_ok_iff,
    f.read_bare 0, unplaced_eq_ok_iff]

end Bare

/-! ## Contents -/

namespace Setting

/-- The setting of a key. -/
def ofKey? (name : String) : Option Setting :=
  [builtins, rootLabel, globalLabel, seedLabel, strategy, trace].find? (·.key == name)

theorem ofKey?_eq_some_iff {name : String} {f : Setting} : ofKey? name = some f ↔ name = f.key := by
  constructor
  · intro h
    have hkey : (f.key == name) = true := List.find?_some (p := fun g : Setting => g.key == name) h
    exact (eq_of_beq hkey).symm
  · rintro rfl
    cases f <;> rfl

end Setting

/-- What the entries have for settings: which of them, and the value. -/
def Toml.Entries.settings (es : Entries) : List (Setting × Node) :=
  es.filterMap fun e => (Setting.ofKey? e.1.name).map fun f => (f, e.2.bare)

section Contents

variable {s s' : Settings} {e : Key × Node} {es es' : Entries}

theorem settings_cons_of_eq {f : Setting} (h : e.1.name = f.key) :
    Entries.settings (e :: es) = (f, e.2.bare) :: es.settings := by
  simp [Entries.settings, Setting.ofKey?_eq_some_iff.mpr h]

theorem settings_cons_of_ne (h : ∀ f : Setting, e.1.name ≠ f.key) :
    Entries.settings (e :: es) = es.settings := by
  have hnone : Setting.ofKey? e.1.name = none :=
    Option.eq_none_iff_forall_ne_some.mpr fun f hf => h f (Setting.ofKey?_eq_some_iff.mp hf)
  simp [Entries.settings, hnone]

theorem mem_settings_iff {f : Setting} {value : Node} :
    (f, value) ∈ es.settings ↔ ∃ e ∈ es, e.1.name = f.key ∧ e.2.bare = value := by
  simp [Entries.settings, Setting.ofKey?_eq_some_iff]

/-- Takes up the value of a setting. -/
def takeSetting (s : Settings) (x : Setting × Node) : Except TypeFault Settings :=
  unplaced ((x.1.read 0 x.2).map (x.1.put s))

/-- **Only what the entries have for settings counts**, except for the place of a fault. -/
theorem unplaced_foldlM_applyEntry :
    unplaced (es.foldlM (fun s e => s.applyEntry e.1 e.2) s) = es.settings.foldlM takeSetting s := by
  induction es generalizing s with
  | nil => rfl
  | cons e es ih =>
    rw [List.foldlM_cons, unplaced_bind]
    simp only [ih]
    by_cases h : ∃ f : Setting, e.1.name = f.key
    · -- Where the key stands is of use for the place of a fault only.
      obtain ⟨f, hf⟩ := h
      rw [applyEntry_of_key hf, settings_cons_of_eq hf, List.foldlM_cons, takeSetting, unplaced_map,
        unplaced_map, f.read_bare e.1.mark 0]
    · have hnot := not_exists.mp h
      rw [applyEntry_of_other hnot, settings_cons_of_ne hnot]
      rfl

/-- A setting becomes what is among the contents of a document. -/
theorem told_iff_settings {f : Setting} : f.Told es s s' ↔
    (∀ value, (f, value) ∈ es.settings → f.Holds value (f.get s')) ∧
      ((∀ value, (f, value) ∉ es.settings) → f.get s' = f.get s) := by
  have hholds : (∀ e ∈ es, e.1.name = f.key → f.Holds e.2 (f.get s')) ↔
      ∀ value, (f, value) ∈ es.settings → f.Holds value (f.get s') := by
    constructor
    · intro h value hvalue
      obtain ⟨e, he, hname, rfl⟩ := mem_settings_iff.mp hvalue
      exact (f.holds_bare _ _).mpr (h e he hname)
    · intro h e he hname
      exact (f.holds_bare _ _).mp (h _ (mem_settings_iff.mpr ⟨e, he, hname, rfl⟩))
  have hnone : (∀ e ∈ es, e.1.name ≠ f.key) ↔ ∀ value, (f, value) ∉ es.settings := by
    constructor
    · intro h value hvalue
      obtain ⟨e, he, hname, -⟩ := mem_settings_iff.mp hvalue
      exact h e he hname
    · intro h e he hname
      exact h _ (mem_settings_iff.mpr ⟨e, he, hname, rfl⟩)
  rw [Setting.Told, hholds, hnone]

/-- The order of the contents does not count. -/
theorem told_congr (h : es.settings.Perm es'.settings) (f : Setting) :
    f.Told es s s' ↔ f.Told es' s s' := by
  rw [told_iff_settings, told_iff_settings]
  simp only [h.mem_iff]

end Contents

/-! ## Texts -/

/-- The text is a document with these entries. -/
def Toml.IsDocument (text : String) (es : Entries) : Prop :=
  Toml.read (singleNewlines text.toList) = some es

namespace Settings

variable {text : String} {es : Entries} {s : Settings}

theorem ofText_of_isDocument (h : IsDocument text es) : ofText text =
    (ofEntries es).mapError fun fault =>
      .illTyped (positionOf (singleNewlines text.toList) fault.1) fault.2 := by
  unfold ofText
  simp only [show Toml.read (singleNewlines text.toList) = some es from h]
  cases ofEntries es <;> rfl

theorem ofText_eq_ok_iff (h : IsDocument text es) : ofText text = .ok s ↔ ofEntries es = .ok s := by
  rw [ofText_of_isDocument h]
  cases ofEntries es <;> simp [Except.mapError]

theorem ofText_eq_error_iff (h : IsDocument text es) {fault : SettingsFault} :
    ofText text = .error fault ↔ ∃ mark cause, ofEntries es = .error (mark, cause) ∧
      fault = .illTyped (positionOf (singleNewlines text.toList) mark) cause := by
  rw [ofText_of_isDocument h]
  cases ofEntries es with
  | ok s => exact iff_of_false nofun nofun
  | error first =>
    constructor
    · intro h
      cases h
      exact ⟨first.1, first.2, rfl, rfl⟩
    · rintro ⟨mark, cause, hfirst, rfl⟩
      cases hfirst
      rfl

/-- What is wrong with a document is found in its contents. -/
theorem exists_ofText_eq_illTyped_iff (h : IsDocument text es) {cause : TypeFault} :
    (∃ position, ofText text = .error (.illTyped position cause)) ↔
      es.settings.foldlM takeSetting {} = .error cause := by
  rw [← unplaced_foldlM_applyEntry, unplaced_eq_error_iff]
  simp only [ofText_eq_error_iff h]
  constructor
  · rintro ⟨_, mark, _, hfirst, heq⟩
    cases heq
    exact ⟨mark, hfirst⟩
  · rintro ⟨mark, hfirst⟩
    exact ⟨_, mark, cause, hfirst, rfl⟩

/-- **The settings of a document.** Its entries have different names and stand in the order in which the
text has them. They are taken up exactly if each entry under the key of a setting has a value of that
setting's type. Then each setting is what its entry says, or the default if it has no entry; and it is
the same for every document with these values for settings, in any order and among any other entries.
Otherwise the first entry that is ill typed is reported, with the place of what is wrong; and the cause
is the same whatever other entries there are. -/
theorem ofText_told {text : String} {es : Entries} (h : IsDocument text es) :
    es.InOrder ∧
    (∀ s, ofText text = .ok s ↔ ∀ f : Setting, f.Told es {} s) ∧
    ((∃ s, ofText text = .ok s) ↔ ∀ e ∈ es, WellTyped e) ∧
    (∀ fault, ofText text = .error fault ↔
      ∃ mark cause, FirstFault WellTyped IllTyped es (mark, cause) ∧
        fault = .illTyped (positionOf (singleNewlines text.toList) mark) cause) ∧
    ∀ {text' : String} {es' : Entries}, IsDocument text' es' →
      (es.settings.Perm es'.settings → ∀ s, ofText text = .ok s ↔ ofText text' = .ok s) ∧
      (es.settings = es'.settings → ∀ cause,
        (∃ position, ofText text = .error (.illTyped position cause)) ↔
          ∃ position, ofText text' = .error (.illTyped position cause)) := by
  have hes : es.InOrder := read_inOrder h
  refine ⟨hes, fun s => ?_, ?_, fun fault => ?_, fun {text' es'} h' => ⟨fun hperm s => ?_, ?_⟩⟩
  · exact (ofText_eq_ok_iff h).trans (ofEntries_eq_ok_iff hes)
  · simp only [ofText_eq_ok_iff h]
    exact exists_ofEntries_iff
  · simp only [ofText_eq_error_iff h, ofEntries_eq_error_iff]
  · rw [ofText_eq_ok_iff h, ofText_eq_ok_iff h', ofEntries_eq_ok_iff hes,
      ofEntries_eq_ok_iff (read_inOrder h')]
    exact forall_congr' fun f => told_congr hperm f
  · intro hsettings cause
    rw [exists_ofText_eq_illTyped_iff h, exists_ofText_eq_illTyped_iff h', hsettings]

/-- Two settings change places, and another table comes between them. Where an array of strings has a
number in it, the number is reported before the next ill-typed entry, also behind a table that is no
setting. -/
theorem ofText_told_rearranged :
    (∃ es es' : Entries, IsDocument "trace=true\nbuiltins=['net sum']\n[owner]" es ∧
      IsDocument "builtins=['net sum']\na.b=1\ntrace=true" es' ∧ es.settings.Perm es'.settings ∧
      (∀ f : Setting, f.Told es {} { builtins := ["net sum"], trace := true }) ∧
      ofText "trace=true\nbuiltins=['net sum']\n[owner]" =
        .ok { builtins := ["net sum"], trace := true } ∧
      ofText "builtins=['net sum']\na.b=1\ntrace=true" =
        .ok { builtins := ["net sum"], trace := true }) ∧
    ∃ es es' : Entries, IsDocument "builtins=['net', 2]\ntrace=0" es ∧
      IsDocument "a.b=1\nbuiltins=['net', 2]\ntrace=0" es' ∧ es.settings = es'.settings ∧
      ofText "builtins=['net', 2]\ntrace=0" =
        .error (.illTyped ⟨1, 18⟩ (.mismatch (.integer 2) .text)) ∧
      ∃ position, ofText "a.b=1\nbuiltins=['net', 2]\ntrace=0" =
        .error (.illTyped position (.mismatch (.integer 2) .text)) := by
  constructor
  · let es : Entries :=
      [(⟨"trace", 39⟩, .scalar 33 (.boolean true)),
        (⟨"builtins", 28⟩, .array 19 [.scalar 18 (.text "net sum")]),
        (⟨"owner", 6⟩, .table (some 7) .header [])]
    let es' : Entries :=
      [(⟨"builtins", 37⟩, .array 28 [.scalar 27 (.text "net sum")]),
        (⟨"a", 16⟩, .table none .dotted [(⟨"b", 14⟩, .scalar 12 (.integer 1))]),
        (⟨"trace", 10⟩, .scalar 4 (.boolean true))]
    have h : IsDocument "trace=true\nbuiltins=['net sum']\n[owner]" es := by
      simp only [IsDocument, String.reduceToList]
      rfl
    have h' : IsDocument "builtins=['net sum']\na.b=1\ntrace=true" es' := by
      simp only [IsDocument, String.reduceToList]
      rfl
    have hread : ofText "trace=true\nbuiltins=['net sum']\n[owner]" =
        .ok { builtins := ["net sum"], trace := true } := by decide +kernel
    have hperm : es.settings.Perm es'.settings := .swap _ _ _
    obtain ⟨-, htold, -, -, hother⟩ := ofText_told h
    exact ⟨es, es', h, h', hperm, (htold _).mp hread, hread, ((hother h').1 hperm _).mp hread⟩
  · let es : Entries :=
      [(⟨"builtins", 27⟩, .array 18 [.scalar 17 (.text "net"), .scalar 10 (.integer 2)]),
        (⟨"trace", 7⟩, .scalar 1 (.integer 0))]
    let other : Key × Node := (⟨"a", 33⟩, .table none .dotted [(⟨"b", 31⟩, .scalar 29 (.integer 1))])
    have h : IsDocument "builtins=['net', 2]\ntrace=0" es := by
      simp only [IsDocument, String.reduceToList]
      rfl
    have h' : IsDocument "a.b=1\nbuiltins=['net', 2]\ntrace=0" (other :: es) := by
      simp only [IsDocument, String.reduceToList]
      rfl
    have hread : ofText "builtins=['net', 2]\ntrace=0" =
        .error (.illTyped ⟨1, 18⟩ (.mismatch (.integer 2) .text)) := by decide +kernel
    have hsettings : es.settings = Entries.settings (other :: es) := rfl
    obtain ⟨-, -, -, -, hother⟩ := ofText_told h
    exact ⟨es, other :: es, h, h', hsettings, hread, ((hother h').2 hsettings _).mp ⟨_, hread⟩⟩

end Settings

end SpacedNames
