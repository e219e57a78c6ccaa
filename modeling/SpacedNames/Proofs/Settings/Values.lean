import Mathlib.Data.List.Forall2
import SpacedNames.Settings.Decode

/-!
# Values of settings

* `Sorts`: a reading gives what a value says, and else reports what is wrong with it.
* `FirstFault`: the fault of the first element that has one. Readings of several values stop there.
* `Node.IsText`, `IsTexts`, `IsStrategy`: what a value of a document says.
* `RefusedText`, `RefusedTexts`, `RefusedStrategy`: what is reported of a value that says nothing of the
  kind.
* `ReadsScalar`: a reading of one kind of values without parts. Strings and truth values are read so.
* `ReadsScalar.sorts`, `sorts_readTexts`, `sorts_readStrategy`: values are read like this.
-/

namespace SpacedNames

open Toml Settings

/-! ## Readings -/

section Reading

variable {α β ε σ : Type}

/-- The reading gives what is said, and reports what is refused. -/
structure Sorts (reading : Except ε α) (holds : α → Prop) (refuses : ε → Prop) : Prop where
  ok_iff : ∀ x, reading = .ok x ↔ holds x
  error_iff : ∀ fault, reading = .error fault ↔ refuses fault

/-- It is enough that something is said or refused. -/
theorem Sorts.of_cases {reading : Except ε α} {holds : α → Prop} {refuses : ε → Prop}
    (hholds : ∀ x, holds x → reading = .ok x)
    (hrefuses : ∀ fault, refuses fault → reading = .error fault)
    (hcases : (∃ x, holds x) ∨ ∃ fault, refuses fault) : Sorts reading holds refuses where
  ok_iff x := by
    refine ⟨fun h => ?_, hholds x⟩
    obtain ⟨y, hy⟩ | ⟨fault, hfault⟩ := hcases
    · cases (hholds y hy).symm.trans h
      exact hy
    · cases (hrefuses fault hfault).symm.trans h
  error_iff fault := by
    refine ⟨fun h => ?_, hrefuses fault⟩
    obtain ⟨x, hx⟩ | ⟨other, hother⟩ := hcases
    · cases (hholds x hx).symm.trans h
    · cases (hrefuses other hother).symm.trans h
      exact hother

/-! ### The first fault -/

variable {good : α → Prop} {bad : α → ε → Prop} {x : α} {xs : List α} {fault : ε}

/-- The fault of an element before which all are good. -/
def FirstFault (good : α → Prop) (bad : α → ε → Prop) (xs : List α) (fault : ε) : Prop :=
  ∃ before x after, xs = before ++ x :: after ∧ (∀ y ∈ before, good y) ∧ bad x fault

theorem not_firstFault_nil : ¬ FirstFault good bad [] fault := by
  rintro ⟨before, x, after, h, -⟩
  cases before <;> cases h

theorem firstFault_cons_iff :
    FirstFault good bad (x :: xs) fault ↔ bad x fault ∨ good x ∧ FirstFault good bad xs fault := by
  constructor
  · rintro ⟨before, y, after, h, hgood, hbad⟩
    cases before with
    | nil =>
      cases h
      exact .inl hbad
    | cons z before =>
      cases h
      obtain ⟨hz, hbefore⟩ := List.forall_mem_cons.mp hgood
      exact .inr ⟨hz, before, y, after, rfl, hbefore, hbad⟩
  · rintro (hbad | ⟨hx, before, y, after, rfl, hgood, hbad⟩)
    · exact ⟨[], x, xs, rfl, nofun, hbad⟩
    · exact ⟨x :: before, y, after, rfl, List.forall_mem_cons.mpr ⟨hx, hgood⟩, hbad⟩

/-- **Readings one after the other** give what each of the values says, and fail with the first fault. -/
theorem sorts_mapM {f : α → Except ε β} {holds : α → β → Prop} {refuses : α → ε → Prop}
    (h : ∀ x, Sorts (f x) (holds x) (refuses x)) (xs : List α) :
    Sorts (xs.mapM f) (List.Forall₂ holds xs) (FirstFault (fun x => ∃ y, holds x y) refuses xs) := by
  induction xs with
  | nil =>
    refine .of_cases (fun ys hys => ?_) (fun _ hfault => absurd hfault not_firstFault_nil)
      (.inl ⟨[], .nil⟩)
    cases hys
    rfl
  | cons x xs ih =>
    refine .of_cases (fun ys hys => ?_) (fun fault hfault => ?_) ?_
    · cases hys with
      | cons hx hxs => rw [List.mapM_cons, ((h x).ok_iff _).mpr hx, (ih.ok_iff _).mpr hxs]; rfl
    · rw [List.mapM_cons]
      obtain hx | ⟨⟨y, hy⟩, hxs⟩ := firstFault_cons_iff.mp hfault
      · rw [((h x).error_iff _).mpr hx]
        rfl
      · rw [((h x).ok_iff _).mpr hy, (ih.error_iff _).mpr hxs]
        rfl
    · cases hx : f x with
      | error fault => exact .inr ⟨fault, firstFault_cons_iff.mpr (.inl (((h x).error_iff _).mp hx))⟩
      | ok y =>
        have hy := ((h x).ok_iff _).mp hx
        cases hxs : xs.mapM f with
        | error fault =>
          exact .inr ⟨fault, firstFault_cons_iff.mpr (.inr ⟨⟨y, hy⟩, (ih.error_iff _).mp hxs⟩)⟩
        | ok ys => exact .inl ⟨y :: ys, .cons hy ((ih.ok_iff _).mp hxs)⟩

end Reading

/-! ## What a value says -/

/-- The name under which a strategy is given. -/
def Strategy.name : Strategy → String
  | .lookahead => "lookahead"
  | .checkpoint => "checkpoint"

namespace Toml.Node

/-- The value has no parts and is this one. -/
def IsScalar (node : Node) (value : Scalar) : Prop :=
  ∃ mark, node = .scalar mark value

/-- The value is this string. -/
abbrev IsText (node : Node) (text : String) : Prop :=
  node.IsScalar (.text text)

/-- The values of an array. The tables of a repeated header are an array, too. -/
def items? : Node → Option (List Node)
  | .array _ items | .tables _ items => some items
  | _ => none

/-- The entries of a table. -/
def entries? : Node → Option Entries
  | .table _ _ entries => some entries
  | _ => none

/-- The value is an array of these strings. -/
def IsTexts (node : Node) (texts : List String) : Prop :=
  ∃ items, node.items? = some items ∧ List.Forall₂ IsText items texts

/-- The value is a table or an array with nothing in it. -/
def IsEmpty (node : Node) : Prop :=
  node.entries? = some [] ∨ node.items? = some []

/-- The value names this strategy: by its name, or by a table with the name as its only key and nothing
in the value. -/
inductive IsStrategy (node : Node) (strategy : Strategy) : Prop
  | named : node.IsText strategy.name → IsStrategy node strategy
  | tagged {tag : Key} {value : Node} : node.entries? = some [(tag, value)] →
      tag.name = strategy.name → value.IsEmpty → IsStrategy node strategy

theorem eq_of_items? {node : Node} {items : List Node} (h : node.items? = some items) :
    ∃ mark, node = .array mark items ∨ node = .tables mark items := by
  cases node with
  | array mark => cases h; exact ⟨mark, .inl rfl⟩
  | tables mark => cases h; exact ⟨mark, .inr rfl⟩
  | scalar | table => cases h

theorem eq_of_entries? {node : Node} {entries : Entries} (h : node.entries? = some entries) :
    ∃ mark kind, node = .table mark kind entries := by
  cases node with
  | table mark kind => cases h; exact ⟨mark, kind, rfl⟩
  | scalar | array | tables => cases h

end Toml.Node

/-! ## What is reported of other values -/

/-- The value should be one without parts, of a certain kind. -/
def RefusedScalar {α : Type} (kind : α → Scalar) (expected : Expectation) (key : Nat) (node : Node)
    (fault : EntryFault) : Prop :=
  (∀ x, ¬ node.IsScalar (kind x)) ∧ fault = mismatch key node expected

/-- The value should be a string. -/
abbrev RefusedText : Nat → Node → EntryFault → Prop :=
  RefusedScalar Scalar.text .text

/-- The value should be an array, or its first value that is no string should be one. -/
inductive RefusedTexts (key : Nat) (node : Node) : EntryFault → Prop
  | noArray : node.items? = none → RefusedTexts key node (mismatch key node .sequence)
  | item {items : List Node} {fault : EntryFault} : node.items? = some items →
      FirstFault (fun x => ∃ text, x.IsText text) (RefusedText key) items fault →
      RefusedTexts key node fault

/-- The value of a strategy's only key should be empty. -/
inductive RefusedTag (tag : Key) (value : Node) : EntryFault → Prop
  | unknown : (∀ strategy : Strategy, tag.name ≠ strategy.name) →
      RefusedTag tag value (tag.mark, .unknownStrategy tag.name)
  | noTable {strategy : Strategy} : tag.name = strategy.name → value.entries? = none →
      value.items? = none → RefusedTag tag value (faultAt tag.mark value (.notTable value.form))
  | notEmpty {strategy : Strategy} : tag.name = strategy.name → ¬ value.IsEmpty →
      (value.entries?.isSome ∨ value.items?.isSome) →
      RefusedTag tag value (faultAt tag.mark value .notEmpty)

/-- The value should be the name of a strategy, or a table with one key. -/
inductive RefusedStrategy (key : Nat) (node : Node) : EntryFault → Prop
  | unknown {name : String} : node.IsText name → (∀ strategy : Strategy, name ≠ strategy.name) →
      RefusedStrategy key node (faultAt key node (.unknownStrategy name))
  | neither : (∀ name, ¬ node.IsText name) → node.entries? = none →
      RefusedStrategy key node (faultAt key node .neitherTextNorTable)
  | noEntry : node.entries? = some [] → RefusedStrategy key node (faultAt key node .noEntry)
  | severalEntries {entries : Entries} : node.entries? = some entries → 1 < entries.length →
      RefusedStrategy key node (faultAt key node .severalEntries)
  | tag {tag : Key} {value : Node} {fault : EntryFault} : node.entries? = some [(tag, value)] →
      RefusedTag tag value fault → RefusedStrategy key node fault

/-! ## How values are read -/

/-- The reading takes the values of one kind, and no others. -/
structure ReadsScalar {α : Type} (reading : Nat → Node → Except EntryFault α) (kind : α → Scalar)
    (expected : Expectation) : Prop where
  ok : ∀ key mark x, reading key (.scalar mark (kind x)) = .ok x
  other : ∀ key {node}, (∀ x, ¬ node.IsScalar (kind x)) →
    reading key node = .error (mismatch key node expected)

/-- What such a reading takes and reports. -/
theorem ReadsScalar.sorts {α : Type} {reading : Nat → Node → Except EntryFault α} {kind : α → Scalar}
    {expected : Expectation} (h : ReadsScalar reading kind expected) (key : Nat) (node : Node) :
    Sorts (reading key node) (fun x => node.IsScalar (kind x))
      (RefusedScalar kind expected key node) := by
  refine .of_cases ?_ ?_ ?_
  · rintro x ⟨mark, rfl⟩
    exact h.ok key mark x
  · rintro fault ⟨hnot, rfl⟩
    exact h.other key hnot
  · by_cases hnode : ∃ x, node.IsScalar (kind x)
    · exact .inl hnode
    · exact .inr ⟨_, not_exists.mp hnode, rfl⟩

theorem readsScalar_readText : ReadsScalar readText Scalar.text .text where
  ok _ _ _ := rfl
  other key node hnot := by
    unfold readText
    split
    · exact absurd ⟨_, rfl⟩ (hnot _)
    · rfl

theorem readsScalar_readBool : ReadsScalar readBool Scalar.boolean .boolean where
  ok _ _ _ := rfl
  other key node hnot := by
    unfold readBool
    split
    · exact absurd ⟨_, rfl⟩ (hnot _)
    · rfl

/-- An array is read value by value; anything else is none. -/
theorem readTexts_eq (key : Nat) (node : Node) : readTexts key node =
    match node.items? with
    | some items => items.mapM (readText key)
    | none => .error (mismatch key node .sequence) := by
  cases node <;> rfl

theorem sorts_readTexts (key : Nat) (node : Node) :
    Sorts (readTexts key node) node.IsTexts (RefusedTexts key node) := by
  rw [readTexts_eq]
  cases hitems : node.items? with
  | none =>
    refine .of_cases ?_ ?_ (.inr ⟨_, .noArray hitems⟩)
    · rintro texts ⟨items, h, -⟩
      cases hitems.symm.trans h
    · rintro _ (- | ⟨h, -⟩)
      · rfl
      · cases hitems.symm.trans h
  | some items =>
    have h := sorts_mapM (readsScalar_readText.sorts key) items
    refine ⟨fun texts => (h.ok_iff texts).trans ?_, fun fault => (h.error_iff fault).trans ?_⟩
    · simp [Node.IsTexts, hitems]
    · refine ⟨.item hitems, ?_⟩
      rintro (hnone | ⟨hsome, hfirst⟩)
      · cases hitems.symm.trans hnone
      · cases hitems.symm.trans hsome
        exact hfirst

theorem strategyOf?_name (strategy : Strategy) : strategyOf? strategy.name = some strategy := by
  cases strategy <;> rfl

theorem strategyOf?_eq_none {name : String} (h : ∀ strategy : Strategy, name ≠ strategy.name) :
    strategyOf? name = none := by
  unfold strategyOf?
  rw [if_neg (by exact h .lookahead), if_neg (by exact h .checkpoint)]

/-- The entry of a strategy's table names a strategy and has nothing in its value. -/
theorem sorts_readTagged (tag : Key) (value : Node) :
    Sorts (readTagged tag value) (fun strategy => tag.name = strategy.name ∧ value.IsEmpty)
      (RefusedTag tag value) := by
  unfold readTagged
  refine .of_cases ?_ ?_ ?_
  · rintro strategy ⟨hname, hempty⟩
    rw [hname, strategyOf?_name]
    obtain h | h := hempty
    · obtain ⟨mark, kind, rfl⟩ := Node.eq_of_entries? h
      rfl
    · obtain ⟨mark, rfl | rfl⟩ := Node.eq_of_items? h <;> rfl
  · intro fault h
    cases h with
    | unknown hname => rw [strategyOf?_eq_none hname]
    | noTable hname hentries hitems =>
      rw [hname, strategyOf?_name]
      cases value with
      | scalar => rfl
      | table => cases hentries
      | array | tables => cases hitems
    | notEmpty hname hempty hparts =>
      rw [hname, strategyOf?_name]
      cases value with
      | scalar => cases hparts <;> contradiction
      | table mark kind entries =>
        cases entries with
        | nil => exact absurd (.inl rfl) hempty
        | cons => rfl
      | array mark items | tables mark items =>
        cases items with
        | nil => exact absurd (.inr rfl) hempty
        | cons => rfl
  · -- The name comes first: what is in the value does not count if it is unknown.
    by_cases hname : ∃ strategy : Strategy, tag.name = strategy.name
    · obtain ⟨strategy, hname⟩ := hname
      by_cases hempty : value.IsEmpty
      · exact .inl ⟨strategy, hname, hempty⟩
      · cases value with
        | scalar => exact .inr ⟨_, .noTable hname rfl rfl⟩
        | table => exact .inr ⟨_, .notEmpty hname hempty (.inl rfl)⟩
        | array | tables => exact .inr ⟨_, .notEmpty hname hempty (.inr rfl)⟩
    · exact .inr ⟨_, .unknown (not_exists.mp hname)⟩

/-- A table is read by its entries, a string by its name; anything else is no strategy. -/
theorem sorts_readStrategy (key : Nat) (node : Node) :
    Sorts (readStrategy key node) node.IsStrategy (RefusedStrategy key node) := by
  refine .of_cases ?_ ?_ ?_
  · intro strategy h
    cases h with
    | named htext =>
      obtain ⟨mark, rfl⟩ := htext
      simp only [readStrategy, strategyOf?_name]
    | tagged hentries hname hempty =>
      obtain ⟨mark, kind, rfl⟩ := Node.eq_of_entries? hentries
      exact ((sorts_readTagged _ _).ok_iff strategy).mpr ⟨hname, hempty⟩
  · intro fault h
    cases h with
    | unknown htext hname =>
      obtain ⟨mark, rfl⟩ := htext
      simp only [readStrategy, strategyOf?_eq_none hname]
    | neither htext hentries =>
      cases node with
      | scalar mark value =>
        cases value with
        | text name => exact absurd ⟨mark, rfl⟩ (htext name)
        | integer | floating | boolean | dateTime => rfl
      | table => cases hentries
      | array | tables => rfl
    | noEntry hentries =>
      obtain ⟨mark, kind, rfl⟩ := Node.eq_of_entries? hentries
      rfl
    | @severalEntries entries hentries hlength =>
      obtain ⟨mark, kind, rfl⟩ := Node.eq_of_entries? hentries
      match entries with
      | [] | [_] => simp at hlength
      | _ :: _ :: _ => rfl
    | tag hentries htag =>
      obtain ⟨mark, kind, rfl⟩ := Node.eq_of_entries? hentries
      exact ((sorts_readTagged _ _).error_iff fault).mpr htag
  · cases hentries : node.entries? with
    | none =>
      by_cases htext : ∃ name, node.IsText name
      · obtain ⟨name, htext⟩ := htext
        by_cases hname : ∃ strategy : Strategy, name = strategy.name
        · obtain ⟨strategy, rfl⟩ := hname
          exact .inl ⟨strategy, .named htext⟩
        · exact .inr ⟨_, .unknown htext (not_exists.mp hname)⟩
      · exact .inr ⟨_, .neither (not_exists.mp htext) hentries⟩
    | some entries =>
      match entries with
      | [] => exact .inr ⟨_, .noEntry hentries⟩
      | [(tag, value)] =>
        cases h : readTagged tag value with
        | ok strategy =>
          obtain ⟨hname, hempty⟩ := ((sorts_readTagged tag value).ok_iff strategy).mp h
          exact .inl ⟨strategy, .tagged hentries hname hempty⟩
        | error fault =>
          exact .inr ⟨fault, .tag hentries (((sorts_readTagged tag value).error_iff fault).mp h)⟩
      | _ :: _ :: _ => exact .inr ⟨_, .severalEntries hentries (by simp)⟩

end SpacedNames
