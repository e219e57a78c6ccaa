import SpacedNames.Proofs.Text.Words
import SpacedNames.Scoping.Environment

/-!
# How candidates stand, in words

The scan of the visible scopes compares keys, byte by byte. Here its answers are told by words.

* `Scope.Holds`: the scope holds the name. `Environment.Declares`, `Extends`, `Leads`: some visible
  name has exactly these words, has them and more, or one of the two.
* `Environment.Nearest`: the name with these words in the nearest scope that holds one.
* `Environment.standing_exact_eq_some_iff`, `standing_extensible_iff`, `keepsGoing_iff`: the scan
  answers these questions, also when it stops early (`Standing.scan_eq_foldl`).
* `Environment.Leads.of_prefix`: what leads to a name does so from its first word on. A candidate
  that is refused once leads to no name, however it goes on.
* `Environment.Stands`: a standing told by words. `Environment.standing_eq_iff`: the scan gives it,
  and neither its early end nor its comparison of bytes changes the answer.
-/

namespace SpacedNames

open Text

/-! ## Names and candidates -/

namespace Name

theorem key_eq_normalize_iff {n : Name} {candidate : String} :
    n.key = normalize candidate ↔ words n.spelling = words candidate := by
  rw [n.key_eq, normalize_eq_iff]

theorem isKey_normalize_iff {n : Name} {candidate : String} :
    n.isKey (normalize candidate) = true ↔ words n.spelling = words candidate := by
  rw [isKey, beq_iff_eq, key_eq_normalize_iff]

/-- Behind a text that the key starts with, the key can be cut: no character is torn. -/
theorem afterBytes?_of_prefix {n : Name} {text : String} (h : text.toList <+: n.key.toList) :
    ∃ rest, n.afterBytes? text = some rest ∧ n.key.toList = text.toList ++ rest := by
  obtain ⟨rest, hrest⟩ := h
  refine ⟨rest, ?_, hrest.symm⟩
  rw [afterBytes?, ← hrest, size, dropBytes?_append]

/-- The bytes that follow the candidate start with a space, if the key goes on with one. -/
theorem continues_iff {n : Name} {candidate : String} :
    n.continues candidate = true ↔
      candidate ≠ "" ∧ ∃ rest, n.key.toList = candidate.toList ++ ' ' :: rest := by
  unfold continues
  rw [Bool.and_eq_true, Bool.and_eq_true, Bool.and_eq_true, decide_eq_true_eq, decide_eq_true_eq,
    List.isPrefixOf_iff_prefix]
  constructor
  · rintro ⟨⟨⟨hne, -⟩, hp⟩, hspace⟩
    refine ⟨hne, ?_⟩
    obtain ⟨rest, hrest, hkey⟩ := afterBytes?_of_prefix hp
    rw [hrest, Option.any_some, beq_iff_eq] at hspace
    obtain ⟨tail, rfl⟩ := List.head?_eq_some_iff.mp hspace
    exact ⟨tail, hkey⟩
  · rintro ⟨hne, rest, hkey⟩
    have hsize : size n.key = size candidate + byteLength (' ' :: rest) := by
      rw [size, hkey, byteLength_append, size]
    have hpos : 0 < byteLength (' ' :: rest) := by
      have := Char.utf8Size_pos ' '
      rw [byteLength_cons]
      omega
    refine ⟨⟨⟨hne, by omega⟩, ⟨' ' :: rest, hkey.symm⟩⟩, ?_⟩
    rw [afterBytes?, hkey, size, dropBytes?_append]
    simp

/-- More words could complete a candidate to a name exactly when the candidate has a word and the
name has the candidate's words and more. -/
theorem continues_normalize_iff {n : Name} {candidate : String} :
    n.continues (normalize candidate) = true ↔
      words candidate ≠ [] ∧ words candidate <+: words n.spelling ∧
        words candidate ≠ words n.spelling := by
  rw [continues_iff, Ne, normalize_eq_empty_iff, n.key_eq]
  exact and_congr_right fun h => normalize_continues_iff h

end Name

/-! ## Names of a scope -/

namespace Bindings

/-- A key has one name, so the search finds it wherever it stands. -/
theorem find?_eq_some_iff {b : Bindings} {key : String} {n : Name} :
    b.find? key = some n ↔ n ∈ b.toList ∧ n.key = key := by
  unfold find?
  obtain ⟨ns, hd⟩ := b
  constructor
  · intro h
    exact ⟨List.mem_of_find?_eq_some h, by simpa using List.find?_some h⟩
  · rintro ⟨hn, rfl⟩
    induction ns with
    | nil => cases hn
    | cons m ms ih =>
      rw [List.map_cons, List.nodup_cons] at hd
      rcases List.mem_cons.mp hn with rfl | hn
      · exact List.find?_cons_of_pos (by simp)
      · have hne : m.key ≠ n.key := fun h => hd.1 (h ▸ List.mem_map_of_mem hn)
        rw [List.find?_cons_of_neg (by simpa using hne)]
        exact ih hd.2 hn

end Bindings

namespace Scope

/-- The scope holds the name. -/
def Holds (s : Scope) (n : Name) : Prop :=
  n ∈ s.bindings.toList

theorem find?_eq_some_iff {s : Scope} {key : String} {n : Name} :
    s.find? key = some n ↔ s.Holds n ∧ n.key = key :=
  Bindings.find?_eq_some_iff

/-- A name that is bound takes the place of the one with its key. -/
theorem find?_bind (s : Scope) (n : Name) (key : String) :
    (s.bind n).find? key = if n.key = key then some n else s.find? key := by
  by_cases h : n.key = key
  · subst h
    rw [if_pos rfl]
    exact s.bindings.find?_insert_self n
  · rw [if_neg h]
    exact s.bindings.find?_insert_of_ne (Ne.symm h)

theorem find?_normalize_eq_some_iff {s : Scope} {candidate : String} {n : Name} :
    s.find? (normalize candidate) = some n ↔ s.Holds n ∧ words n.spelling = words candidate := by
  rw [find?_eq_some_iff, Name.key_eq_normalize_iff]

theorem find?_normalize_eq_none_iff {s : Scope} {candidate : String} :
    s.find? (normalize candidate) = none ↔
      ∀ n, s.Holds n → words n.spelling ≠ words candidate := by
  simp only [Option.eq_none_iff_forall_not_mem, Option.mem_def, find?_normalize_eq_some_iff,
    not_and, Ne]

theorem hasContinuation_normalize_iff {s : Scope} {candidate : String} :
    s.hasContinuation (normalize candidate) = true ↔
      words candidate ≠ [] ∧ ∃ n, s.Holds n ∧ words candidate <+: words n.spelling ∧
        words candidate ≠ words n.spelling := by
  unfold hasContinuation Bindings.hasContinuation
  rw [List.any_eq_true]
  simp only [Name.continues_normalize_iff]
  constructor
  · rintro ⟨n, hn, hne, h⟩
    exact ⟨hne, n, hn, h⟩
  · rintro ⟨hne, n, hn, h⟩
    exact ⟨n, hn, hne, h⟩

end Scope

/-! ## The scan -/

namespace Standing

/-- The standing after one more scope. -/
def see (key : String) (s : Standing) (scope : Scope) : Standing where
  exact := s.exact.or ((scope.find? key).map (⟨·, scope.handle⟩))
  extensible := s.extensible || scope.hasContinuation key

theorem scan_cons (key : String) (s : Standing) (scope : Scope) (rest : List Scope) :
    scan key s (scope :: rest) =
      if (s.see key scope).exact.isSome && (s.see key scope).extensible then s.see key scope
      else scan key (s.see key scope) rest := by
  rw [scan, see]
  cases s.exact <;> rfl

/-- The first exact answer counts. Where the scan stops early there is one already. -/
theorem scan_exact (key : String) (s : Standing) (scopes : List Scope) :
    (scan key s scopes).exact =
      s.exact.or (scopes.findSome? fun scope => (scope.find? key).map (⟨·, scope.handle⟩)) := by
  induction scopes generalizing s with
  | nil => simp [scan]
  | cons scope rest ih =>
    have hsee : s.exact.or ((scope :: rest).findSome? fun t => (t.find? key).map (⟨·, t.handle⟩)) =
        (s.see key scope).exact.or
          (rest.findSome? fun t => (t.find? key).map (⟨·, t.handle⟩)) := by
      rw [see, Option.or_assoc, List.findSome?_cons]
      cases scope.find? key <;> rfl
    rw [scan_cons, hsee]
    split
    · rename_i h
      obtain ⟨r, hr⟩ := Option.isSome_iff_exists.mp (Bool.and_eq_true_iff.mp h).1
      rw [hr, Option.some_or]
    · exact ih _

/-- Where the scan stops early, the candidate is known to be extensible. -/
theorem scan_extensible (key : String) (s : Standing) (scopes : List Scope) :
    (scan key s scopes).extensible = (s.extensible || scopes.any (·.hasContinuation key)) := by
  induction scopes generalizing s with
  | nil => simp [scan]
  | cons scope rest ih =>
    have hor : ∀ b, (s.extensible || (scope.hasContinuation key || b)) =
        ((s.see key scope).extensible || b) := fun b => (Bool.or_assoc ..).symm
    rw [scan_cons, List.any_cons, hor]
    split
    · rename_i h
      rw [(Bool.and_eq_true_iff.mp h).2, Bool.true_or]
    · exact ih _

/-- A standing that is exact and extensible stays as it is, whatever scopes follow. -/
theorem foldl_see_of_settled (key : String) {s : Standing} (hx : s.exact.isSome = true)
    (he : s.extensible = true) (scopes : List Scope) : scopes.foldl (see key) s = s := by
  obtain ⟨r, hr⟩ := Option.isSome_iff_exists.mp hx
  have hsee : ∀ scope, see key s scope = s := by
    intro scope
    cases s
    simp only at hr he
    rw [see, hr, he, Option.some_or, Bool.true_or]
  induction scopes with
  | nil => rfl
  | cons scope rest ih => rw [List.foldl_cons, hsee, ih]

/-- **The early end changes nothing**: a walk through all scopes comes to the same standing. -/
theorem scan_eq_foldl (key : String) (s : Standing) (scopes : List Scope) :
    scan key s scopes = scopes.foldl (see key) s := by
  induction scopes generalizing s with
  | nil => rfl
  | cons scope rest ih =>
    rw [scan_cons, List.foldl_cons]
    split
    · rename_i h
      obtain ⟨hx, he⟩ := Bool.and_eq_true_iff.mp h
      exact (foldl_see_of_settled key hx he rest).symm
    · exact ih _

end Standing

/-! ## Visible names -/

namespace Environment

/-- Some visible name has exactly these words. -/
def Declares (e : Environment) (ws : List String) : Prop :=
  ∃ s ∈ e.visible, ∃ n, s.Holds n ∧ words n.spelling = ws

/-- Some visible name has these words and more. -/
def Extends (e : Environment) (ws : List String) : Prop :=
  ∃ s ∈ e.visible, ∃ n, s.Holds n ∧ ws <+: words n.spelling ∧ ws ≠ words n.spelling

/-- Some visible name starts with these words, or has no others. -/
def Leads (e : Environment) (ws : List String) : Prop :=
  ∃ s ∈ e.visible, ∃ n, s.Holds n ∧ ws <+: words n.spelling

/-- The name with these words in the nearest visible scope that holds one. -/
def Nearest (e : Environment) (ws : List String) (r : Resolution) : Prop :=
  ∃ near s far, e.visible = near ++ s :: far ∧
    s.Holds r.name ∧ words r.name.spelling = ws ∧ r.scope = s.handle ∧
    ∀ t ∈ near, ∀ n, t.Holds n → words n.spelling ≠ ws

theorem Nearest.declares {e : Environment} {ws : List String} {r : Resolution}
    (h : e.Nearest ws r) : e.Declares ws := by
  obtain ⟨near, s, far, hv, hn, hw, -, -⟩ := h
  exact ⟨s, by simp [hv], r.name, hn, hw⟩

theorem leads_iff {e : Environment} {ws : List String} :
    e.Leads ws ↔ e.Declares ws ∨ e.Extends ws := by
  constructor
  · rintro ⟨s, hs, n, hn, hp⟩
    by_cases hw : ws = words n.spelling
    · exact .inl ⟨s, hs, n, hn, hw.symm⟩
    · exact .inr ⟨s, hs, n, hn, hp, hw⟩
  · rintro (⟨s, hs, n, hn, rfl⟩ | ⟨s, hs, n, hn, hp, -⟩)
    · exact ⟨s, hs, n, hn, List.prefix_refl _⟩
    · exact ⟨s, hs, n, hn, hp⟩

theorem Declares.leads {e : Environment} {ws : List String} (h : e.Declares ws) : e.Leads ws :=
  leads_iff.mpr (.inl h)

/-- **What leads to a name does so from its first word on.** -/
theorem Leads.of_prefix {e : Environment} {vs ws : List String} (h : e.Leads ws)
    (hp : vs <+: ws) : e.Leads vs := by
  obtain ⟨s, hs, n, hn, hw⟩ := h
  exact ⟨s, hs, n, hn, hp.trans hw⟩

/-- The exact answer of the scan is the name with the candidate's words in the nearest scope. -/
theorem standing_exact_eq_some_iff {e : Environment} {candidate : String} {r : Resolution} :
    (e.standing candidate).exact = some r ↔ e.Nearest (words candidate) r := by
  unfold standing Nearest
  rw [Standing.scan_exact, Option.none_or, List.findSome?_eq_some_iff]
  refine exists_congr fun near => exists_congr fun s => exists_congr fun far => ?_
  refine and_congr_right fun _ => ?_
  simp only [Option.map_eq_some_iff, Option.map_eq_none_iff, Scope.find?_normalize_eq_some_iff,
    Scope.find?_normalize_eq_none_iff]
  constructor
  · rintro ⟨⟨n, ⟨hn, hw⟩, rfl⟩, hnear⟩
    exact ⟨hn, hw, rfl, hnear⟩
  · rintro ⟨hn, hw, hs, hnear⟩
    exact ⟨⟨r.name, ⟨hn, hw⟩, by rw [← hs]⟩, hnear⟩

theorem standing_exact_eq_none_iff {e : Environment} {candidate : String} :
    (e.standing candidate).exact = none ↔ ¬ e.Declares (words candidate) := by
  unfold standing Declares
  rw [Standing.scan_exact, Option.none_or, List.findSome?_eq_none_iff]
  simp only [Option.map_eq_none_iff, Scope.find?_normalize_eq_none_iff, not_exists, not_and, Ne]

theorem standing_extensible_iff {e : Environment} {candidate : String} :
    (e.standing candidate).extensible = true ↔
      words candidate ≠ [] ∧ e.Extends (words candidate) := by
  unfold standing Extends
  rw [Standing.scan_extensible, Bool.false_or, List.any_eq_true]
  simp only [Scope.hasContinuation_normalize_iff]
  constructor
  · rintro ⟨s, hs, hne, h⟩
    exact ⟨hne, s, hs, h⟩
  · rintro ⟨hne, s, hs, h⟩
    exact ⟨s, hs, hne, h⟩

/-- A candidate that has a word keeps going exactly when it leads to a visible name. -/
theorem keepsGoing_iff {e : Environment} {candidate : String} (h : words candidate ≠ []) :
    (e.standing candidate).keepsGoing = true ↔ e.Leads (words candidate) := by
  unfold Standing.keepsGoing
  rw [Bool.or_eq_true, standing_extensible_iff, leads_iff, Option.isSome_iff_ne_none, Ne,
    standing_exact_eq_none_iff, Classical.not_not, and_iff_right h]

/-- Two names are not both the nearest ones: a scope has one name for the words. -/
theorem Nearest.unique {e : Environment} {candidate : String} {r r' : Resolution}
    (h : e.Nearest (words candidate) r) (h' : e.Nearest (words candidate) r') : r = r' :=
  Option.some.inj <|
    (standing_exact_eq_some_iff.mpr h).symm.trans (standing_exact_eq_some_iff.mpr h')

/-! ## The standing in words -/

/-- How words stand among those of the visible names. -/
structure Stands (e : Environment) (ws : List String) (s : Standing) : Prop where
  /-- The exact answer is the nearest name with these words. -/
  exact : ∀ r, s.exact = some r ↔ e.Nearest ws r
  exact_eq_none_iff : s.exact = none ↔ ¬ e.Declares ws
  /-- No words at all could start any name, and do not count. -/
  extensible : s.extensible = true ↔ ws ≠ [] ∧ e.Extends ws

/-- Words stand in one way. -/
theorem Stands.unique {e : Environment} {ws : List String} {s s' : Standing}
    (h : e.Stands ws s) (h' : e.Stands ws s') : s = s' := by
  have hx : s.exact = s'.exact := Option.ext fun r => (h.exact r).trans (h'.exact r).symm
  have he : s.extensible = s'.extensible :=
    Bool.eq_iff_iff.mpr (h.extensible.trans h'.extensible.symm)
  cases s
  cases s'
  rw [Standing.mk.injEq]
  exact ⟨hx, he⟩

theorem stands_standing (e : Environment) (candidate : String) :
    e.Stands (words candidate) (e.standing candidate) :=
  ⟨fun _ => standing_exact_eq_some_iff, standing_exact_eq_none_iff, standing_extensible_iff⟩

/-- **A candidate stands as its words do.** The scan of the visible scopes gives the standing that
`Stands` tells, and no other; one that goes through all of them would give no other either. The keys
are compared byte by byte, which comes to a comparison of words, and a key is cut only between two
characters. -/
theorem standing_eq_iff (e : Environment) (candidate : String) :
    (∀ s, e.standing candidate = s ↔ e.Stands (words candidate) s) ∧
      e.standing candidate = e.visible.foldl (Standing.see (normalize candidate)) {} ∧
      ∀ n : Name,
        (n.isKey (normalize candidate) = true ↔ words n.spelling = words candidate) ∧
        (n.continues (normalize candidate) = true ↔
          words candidate ≠ [] ∧ words candidate <+: words n.spelling ∧
            words candidate ≠ words n.spelling) ∧
        ∀ text : String, text.toList <+: n.key.toList →
          ∃ rest, n.afterBytes? text = some rest ∧ n.key.toList = text.toList ++ rest := by
  have h := e.stands_standing candidate
  refine ⟨fun s => ⟨fun hs => hs ▸ h, fun hs => h.unique hs⟩, Standing.scan_eq_foldl _ _ _,
    fun n => ⟨Name.isKey_normalize_iff, Name.continues_normalize_iff, fun text => ?_⟩⟩
  exact Name.afterBytes?_of_prefix

/-- A longer name farther out makes the candidate extensible, and the nearer spelling is the exact
answer. -/
example : (((withBuiltins "root" ["total amount", "total amount due"]).openScope "local").2.declare
    (.declared "total  amount")).2.standing " total\tamount " =
      ⟨some ⟨.declared "total  amount", ⟨1, 1⟩⟩, true⟩ := by decide +kernel

end Environment

end SpacedNames
