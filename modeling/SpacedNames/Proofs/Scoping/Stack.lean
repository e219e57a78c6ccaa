import Mathlib.Data.List.Chain
import Mathlib.Data.List.Induction
import SpacedNames.Scoping.Environment

/-!
# The live scopes form one chain

* `ScopeStack.Slotted`: every live scope is at its slot. Then a handle stands for a live scope
  exactly when it is that scope's own (`Slotted.scope?_eq_some_iff`), and a change through a handle
  changes the scope of that handle only (`Slotted.toList_modify`).
* `ScopeStack.Linked`: every live scope is at its slot, its parent is the scope one slot below it,
  and the serials increase towards the innermost scope and stay below the next one.
* `Linked.openBelow`, `Linked.of_prefix`, `Linked.congr`: opening a scope below the innermost one,
  closing scopes from the inside, and changing no handle and no parent keep the chain.
* `ScopeStack.Way`: live scopes from a root on, each the parent of the next one. From its last scope
  it is gone back to the root (`Way.climb_eq`).
* `Linked.ancestors_eq`, `Linked.pathOf_eq`: in a chain, the way from a scope to the root goes
  through every slot below it.
-/

namespace SpacedNames

namespace Scope

@[simp] theorem bind_handle (s : Scope) (n : Name) : (s.bind n).handle = s.handle := rfl

@[simp] theorem bind_parent (s : Scope) (n : Name) : (s.bind n).parent = s.parent := rfl

@[simp] theorem bind_label (s : Scope) (n : Name) : (s.bind n).label = s.label := rfl

/-- What ties a scope to the others. -/
def link (s : Scope) : Handle × Option Handle :=
  (s.handle, s.parent)

end Scope

namespace ScopeStack

variable {s s' : ScopeStack} {t : Scope} {h : Handle} {i : Nat}

/-! ## The innermost scope -/

/-- There is only the root, or a last one of the scopes above it. -/
theorem inner_cases (s : ScopeStack) : s.inner = [] ∨ ∃ front t, s.inner = front ++ [t] := by
  rcases List.eq_nil_or_concat s.inner with hi | ⟨front, t, hi⟩
  · exact .inl hi
  · exact .inr ⟨front, t, by rw [hi, List.concat_eq_append]⟩

/-- The live scope in the highest slot. -/
def innermost (s : ScopeStack) : Scope :=
  s.toList.getLast (List.cons_ne_nil _ _)

theorem getElem?_innermost (hi : i + 1 = s.size) : s.toList[i]? = some s.innermost := by
  have hlast := List.getLast?_eq_some_getLast (List.cons_ne_nil s.root s.inner)
  rw [List.getLast?_eq_getElem?] at hlast
  obtain rfl : i = s.size - 1 := by omega
  exact hlast

theorem innermost_mem (s : ScopeStack) : s.innermost ∈ s.toList :=
  List.getLast_mem _

theorem innermost_of_inner_nil (hi : s.inner = []) : s.innermost = s.root := by
  simp [innermost, toList, hi]

theorem innermost_of_inner_append {front : List Scope} (hi : s.inner = front ++ [t]) :
    s.innermost = t := by
  simp [innermost, toList, hi, List.getLast_cons]

theorem innermost_of_toList {front : List Scope} (hl : s.toList = front ++ [t]) :
    s.innermost = t := by
  simp only [innermost, hl, List.getLast_concat]

theorem exists_toList_concat (s : ScopeStack) : ∃ front, s.toList = front ++ [s.innermost] :=
  ⟨_, (List.dropLast_concat_getLast (List.cons_ne_nil _ _)).symm⟩

/-! ## What the operations do to the list of scopes -/

theorem toList_openBelow (s : ScopeStack) (parent : Handle) (label : String) :
    (s.openBelow parent label).2.toList =
      s.toList ++ [.empty ⟨s.size, s.nextSerial⟩ label (some parent)] := rfl

theorem innermost_openBelow (s : ScopeStack) (parent : Handle) (label : String) :
    (s.openBelow parent label).2.innermost = .empty ⟨s.size, s.nextSerial⟩ label (some parent) :=
  innermost_of_inner_append rfl

theorem closeInnermost?_of_inner_append {front : List Scope} (hi : s.inner = front ++ [t]) :
    s.closeInnermost? = some (t, { s with inner := front }) := by
  simp [closeInnermost?, hi]

theorem toList_of_inner_append {front : List Scope} (hi : s.inner = front ++ [t]) :
    s.toList = { s with inner := front }.toList ++ [t] := by
  simp [toList, hi]

theorem toList_modify (s : ScopeStack) (h : Handle) (f : Scope → Scope) :
    (s.modify h f).toList =
      s.toList.modify h.slot fun t => if t.handle = h then f t else t := by
  unfold modify toList
  cases h.slot <;> rfl

theorem modify_nextSerial (s : ScopeStack) (h : Handle) (f : Scope → Scope) :
    (s.modify h f).nextSerial = s.nextSerial := by
  unfold modify
  cases h.slot <;> rfl

theorem scope?_eq_some_iff : s.scope? h = some t ↔ s.toList[h.slot]? = some t ∧ t.handle = h := by
  rw [scope?, Option.filter_eq_some_iff, decide_eq_true_eq]

/-! ## Slots -/

/-- A place in a list with one more element at its end. -/
private theorem getElem?_append_singleton {xs : List Scope} {x : Scope}
    (hi : (xs ++ [x])[i]? = some t) : xs[i]? = some t ∨ i = xs.length ∧ t = x := by
  rw [List.getElem?_append] at hi
  split at hi
  · exact .inl hi
  · rw [List.getElem?_singleton] at hi
    split at hi
    · exact .inr ⟨by omega, (Option.some.inj hi).symm⟩
    · cases hi

theorem getElem?_of_isPrefix (hp : s'.toList <+: s.toList) (ht : s'.toList[i]? = some t) :
    s.toList[i]? = some t := by
  obtain ⟨rest, hr⟩ := hp
  rw [← hr, List.getElem?_append_left (List.getElem?_eq_some_iff.mp ht).1]
  exact ht

/-- Every live scope is at its slot. -/
def Slotted (s : ScopeStack) : Prop :=
  ∀ (i : Nat) (t : Scope), s.toList[i]? = some t → t.handle.slot = i

theorem Slotted.openBelow (hs : s.Slotted) (parent : Handle) (label : String) :
    (s.openBelow parent label).2.Slotted := by
  intro i t ht
  rw [toList_openBelow] at ht
  rcases getElem?_append_singleton ht with ht | ⟨rfl, rfl⟩
  · exact hs i t ht
  · rfl

theorem Slotted.of_prefix (hs : s.Slotted) (hp : s'.toList <+: s.toList) : s'.Slotted :=
  fun i t ht => hs i t (getElem?_of_isPrefix hp ht)

/-- The slots are told by the handles alone. -/
theorem Slotted.congr (hs : s.Slotted)
    (hm : s'.toList.map Scope.handle = s.toList.map Scope.handle) : s'.Slotted := by
  intro i t' ht'
  have hi := congrArg (·[i]?) hm
  rw [List.getElem?_map, List.getElem?_map, ht', Option.map_some] at hi
  obtain ⟨t, ht, he⟩ := Option.map_eq_some_iff.mp hi.symm
  rw [← he]
  exact hs i t ht

/-- The slots increase from the root inwards. -/
theorem Slotted.increasing (hs : s.Slotted) :
    s.toList.Pairwise fun t u => t.handle.slot < u.handle.slot := by
  rw [List.pairwise_iff_getElem]
  intro i j hi hj hij
  rw [hs i _ (List.getElem?_eq_getElem hi), hs j _ (List.getElem?_eq_getElem hj)]
  exact hij

/-- **A handle stands for a live scope** exactly when it is that scope's own. -/
theorem Slotted.scope?_eq_some_iff (hs : s.Slotted) :
    s.scope? h = some t ↔ t ∈ s.toList ∧ t.handle = h := by
  rw [ScopeStack.scope?_eq_some_iff]
  constructor
  · rintro ⟨ht, hh⟩
    exact ⟨List.mem_of_getElem? ht, hh⟩
  · rintro ⟨ht, rfl⟩
    obtain ⟨i, hi⟩ := List.mem_iff_getElem?.mp ht
    rw [hs i t hi]
    exact ⟨hi, rfl⟩

/-- A change through a handle changes the scope of that handle only. -/
theorem Slotted.toList_modify (hs : s.Slotted) (h : Handle) (f : Scope → Scope) :
    (s.modify h f).toList = s.toList.map fun t => if t.handle = h then f t else t := by
  rw [ScopeStack.toList_modify]
  refine List.ext_getElem? fun i => ?_
  rw [List.getElem?_modify, List.getElem?_map]
  cases hi : s.toList[i]? with
  | none => rfl
  | some t =>
    have hslot := hs i t hi
    by_cases hh : t.handle = h
    · subst hh
      simp [hslot]
    · by_cases hk : h.slot = i <;> simp [hk, hh]

/-! ## The chain -/

/-- The live scopes are one chain. -/
structure Linked (s : ScopeStack) : Prop where
  /-- The slot of a scope is its place. -/
  slot : ∀ (i : Nat) (t : Scope), s.toList[i]? = some t → t.handle.slot = i
  root_serial : s.root.handle.serial = 0
  root_parent : s.root.parent = none
  /-- The parent of a scope is the one in the slot below. -/
  parent : ∀ (i : Nat) (t u : Scope), s.toList[i]? = some t → s.toList[i + 1]? = some u →
    u.parent = some t.handle
  /-- The serials increase from the root inwards. -/
  increasing : s.toList.Pairwise fun t u => t.handle.serial < u.handle.serial
  /-- The next serial is a new one. -/
  serial_lt : ∀ t ∈ s.toList, t.handle.serial < s.nextSerial

theorem Linked.slotted (hs : s.Linked) : s.Slotted :=
  hs.slot

theorem linked_ofRoot (label : String) : (ofRoot label).Linked where
  slot i t ht := by
    obtain ⟨rfl, rfl⟩ : i = 0 ∧ _ = t := by simpa [ofRoot, toList, List.getElem?_singleton] using ht
    rfl
  root_serial := rfl
  root_parent := rfl
  parent i t u _ hu := by simp [ofRoot, toList] at hu
  increasing := List.pairwise_singleton _ _
  serial_lt t ht := by
    obtain rfl := List.mem_singleton.mp ht
    exact Nat.zero_lt_one

/-- The chain is told by the handles and the parents alone. -/
theorem Linked.congr (hs : s.Linked) (hm : s'.toList.map Scope.link = s.toList.map Scope.link)
    (hn : s.nextSerial ≤ s'.nextSerial) : s'.Linked := by
  have hget : ∀ (i : Nat) (t' : Scope), s'.toList[i]? = some t' →
      ∃ t, s.toList[i]? = some t ∧ t.handle = t'.handle ∧ t.parent = t'.parent := by
    intro i t' ht'
    have hi : (s'.toList.map Scope.link)[i]? = (s.toList.map Scope.link)[i]? := by rw [hm]
    rw [List.getElem?_map, List.getElem?_map, ht', Option.map_some] at hi
    obtain ⟨t, ht, he⟩ := Option.map_eq_some_iff.mp hi.symm
    exact ⟨t, ht, congrArg Prod.fst he, congrArg Prod.snd he⟩
  have hroot : s'.root.link = s.root.link := (List.cons.inj hm).1
  refine ⟨?_, ?_, ?_, ?_, ?_, ?_⟩
  · intro i t' ht'
    obtain ⟨t, ht, he, -⟩ := hget i t' ht'
    rw [← he]
    exact hs.slot i t ht
  · rw [show s'.root.handle = s.root.handle from congrArg Prod.fst hroot]
    exact hs.root_serial
  · rw [show s'.root.parent = s.root.parent from congrArg Prod.snd hroot]
    exact hs.root_parent
  · intro i t' u' ht' hu'
    obtain ⟨t, ht, he, -⟩ := hget i t' ht'
    obtain ⟨u, hu, -, hp⟩ := hget (i + 1) u' hu'
    rw [← hp, ← he]
    exact hs.parent i t u ht hu
  · have hinc : (s.toList.map Scope.link).Pairwise fun a b => a.1.serial < b.1.serial :=
      List.pairwise_map.mpr hs.increasing
    rw [← hm, List.pairwise_map] at hinc
    exact hinc
  · intro t' ht'
    obtain ⟨i, hi⟩ := List.mem_iff_getElem?.mp ht'
    obtain ⟨t, ht, he, -⟩ := hget i t' hi
    rw [← he]
    exact Nat.lt_of_lt_of_le (hs.serial_lt t (List.mem_of_getElem? ht)) hn

/-- The outer part of a chain is a chain. -/
theorem Linked.of_prefix (hs : s.Linked) (hp : s'.toList <+: s.toList)
    (hn : s.nextSerial ≤ s'.nextSerial) : s'.Linked := by
  have hroot : s'.root = s.root := (List.cons_prefix_cons.mp hp).1
  refine ⟨hs.slotted.of_prefix hp, hroot ▸ hs.root_serial, hroot ▸ hs.root_parent,
    fun i t u ht hu => hs.parent i t u (getElem?_of_isPrefix hp ht) (getElem?_of_isPrefix hp hu),
    ?_, ?_⟩
  · exact hs.increasing.sublist hp.sublist
  · intro t ht
    exact Nat.lt_of_lt_of_le (hs.serial_lt t (hp.subset ht)) hn

/-- A scope that is opened below the innermost one makes the chain longer. -/
theorem Linked.openBelow (hs : s.Linked) (label : String) :
    (s.openBelow s.innermost.handle label).2.Linked where
  slot := hs.slotted.openBelow _ label
  root_serial := hs.root_serial
  root_parent := hs.root_parent
  parent i t u ht hu := by
    rw [toList_openBelow] at ht hu
    rcases getElem?_append_singleton ht with ht | ⟨rfl, -⟩
    · rcases getElem?_append_singleton hu with hu | ⟨hi, rfl⟩
      · exact hs.parent i t u ht hu
      · rw [getElem?_innermost hi] at ht
        obtain rfl := Option.some.inj ht
        rfl
    · rw [List.getElem?_eq_none (by simp)] at hu
      cases hu
  increasing := by
    rw [toList_openBelow, List.pairwise_append]
    refine ⟨hs.increasing, List.pairwise_singleton _ _, ?_⟩
    intro t ht u hu
    obtain rfl := List.mem_singleton.mp hu
    exact hs.serial_lt t ht
  serial_lt t ht := by
    have hnext : (s.openBelow s.innermost.handle label).2.nextSerial = s.nextSerial + 1 := rfl
    rw [hnext]
    rw [toList_openBelow] at ht
    rcases List.mem_append.mp ht with ht | ht
    · exact Nat.lt_succ_of_lt (hs.serial_lt t ht)
    · obtain rfl := List.mem_singleton.mp ht
      exact Nat.lt_succ_self _

theorem Linked.of_inner_append (hs : s.Linked) {front : List Scope} (hi : s.inner = front ++ [t]) :
    { s with inner := front }.Linked :=
  hs.of_prefix ⟨[t], (toList_of_inner_append hi).symm⟩ (Nat.le_refl _)

/-- The innermost scope has the scope below it as its parent. -/
theorem Linked.parent_of_inner_append (hs : s.Linked) {front : List Scope}
    (hi : s.inner = front ++ [t]) :
    t.parent = some { s with inner := front }.innermost.handle := by
  have hl := toList_of_inner_append hi
  refine hs.parent front.length _ t ?_ ?_
  · rw [hl, List.getElem?_append_left (Nat.lt_succ_self _)]
    exact getElem?_innermost rfl
  · rw [hl]
    exact List.getElem?_concat_length

/-! ## Handles -/

theorem Linked.scope?_eq_some_iff (hs : s.Linked) :
    s.scope? h = some t ↔ t ∈ s.toList ∧ t.handle = h :=
  hs.slotted.scope?_eq_some_iff

/-- Two live scopes have two handles. -/
theorem Linked.eq_of_handle_eq (hs : s.Linked) {u : Scope} (ht : t ∈ s.toList)
    (hu : u ∈ s.toList) (he : t.handle = u.handle) : t = u := by
  have h := hs.scope?_eq_some_iff.mpr ⟨ht, he⟩
  rw [hs.scope?_eq_some_iff.mpr ⟨hu, rfl⟩] at h
  exact (Option.some.inj h).symm

/-- Only the root has no parent. -/
theorem Linked.isRoot_iff (hs : s.Linked) (ht : t ∈ s.toList) :
    t.isRoot = true ↔ t.handle = s.root.handle := by
  rw [Scope.isRoot, Option.isNone_iff_eq_none]
  constructor
  · intro hp
    obtain ⟨i, hi⟩ := List.mem_iff_getElem?.mp ht
    cases i with
    | zero => rw [show s.root = t from Option.some.inj hi]
    | succ i =>
      have hlt : i < s.toList.length := by
        have := (List.getElem?_eq_some_iff.mp hi).1
        omega
      rw [hs.parent i _ t (List.getElem?_eq_getElem hlt) hi] at hp
      cases hp
  · intro hh
    rw [hs.eq_of_handle_eq ht List.mem_cons_self hh]
    exact hs.root_parent

/-! ## Towards the root -/

theorem climb_none (s : ScopeStack) (fuel : Nat) : s.climb fuel none = [] := by
  cases fuel <;> rfl

/-- From a handle that stands for no live scope there is no way. -/
theorem pathOf_of_scope?_eq_none (hn : s.scope? h = none) : s.pathOf h = [] := by
  have hsize : s.size = s.inner.length + 1 := rfl
  rw [pathOf, ancestors, hsize, climb, hn]
  rfl

/-- The ways to the root are told by the list of live scopes alone. -/
theorem ancestors_congr (hl : s'.toList = s.toList) (h : Handle) :
    s'.ancestors h = s.ancestors h := by
  have hclimb : ∀ fuel from?, s'.climb fuel from? = s.climb fuel from? := by
    intro fuel
    induction fuel with
    | zero => exact fun _ => rfl
    | succ fuel ih =>
      intro from?
      cases from? with
      | none => rfl
      | some h =>
        rw [climb, climb, scope?, scope?, hl]
        split
        · rw [ih]
        · rfl
  rw [ancestors, ancestors, hclimb, size, size, hl]

/-- Live scopes from a root on, each the parent of the next one. -/
structure Way (s : ScopeStack) (way : List Scope) : Prop where
  live : ∀ t ∈ way, t ∈ s.toList
  start : ∀ t ∈ way.head?, t.parent = none
  parent : way.IsChain fun t u => u.parent = some t.handle

theorem Way.of_append {way rest : List Scope} (hw : s.Way (way ++ rest)) : s.Way way where
  live t ht := hw.live t (List.mem_append_left rest ht)
  start t ht := hw.start t (by simp [List.head?_append, Option.mem_def.mp ht])
  parent := hw.parent.left_of_append

theorem Way.scope?_last (hs : s.Slotted) {way : List Scope} (hw : s.Way (way ++ [t])) :
    s.scope? t.handle = some t :=
  hs.scope?_eq_some_iff.mpr ⟨hw.live t (List.mem_append_right way (List.mem_singleton_self t)), rfl⟩

/-- **From its last scope a way is gone back** to its start. -/
theorem Way.climb_eq (hs : s.Slotted) {way : List Scope} (hw : s.Way (way ++ [t])) {fuel : Nat}
    (hf : way.length < fuel) : s.climb fuel (some t.handle) = (way ++ [t]).reverse := by
  obtain ⟨fuel, rfl⟩ := Nat.exists_eq_add_one_of_ne_zero (Nat.ne_of_gt (Nat.zero_lt_of_lt hf))
  induction way using List.reverseRecOn generalizing t fuel with
  | nil =>
    rw [climb, hw.scope?_last hs]
    simp [hw.start t rfl, climb_none]
  | append_singleton way u ih =>
    rw [List.length_append, List.length_singleton] at hf
    obtain ⟨fuel, rfl⟩ := Nat.exists_eq_add_one_of_ne_zero (show fuel ≠ 0 by omega)
    have hp : t.parent = some u.handle :=
      (List.isChain_append.mp hw.parent).2.2 u (by simp) t (by simp)
    rw [climb, hw.scope?_last hs]
    simp only
    rw [hp, ih hw.of_append fuel (by omega)]
    simp

/-- All live scopes of a chain are one way. -/
theorem Linked.way (hs : s.Linked) : s.Way s.toList where
  live _ ht := ht
  start t ht := by
    obtain rfl : s.root = t := Option.some.inj ht
    exact hs.root_parent
  parent := List.isChain_iff_getElem.mpr fun i hi =>
    hs.parent i _ _ (List.getElem?_eq_getElem (Nat.lt_of_succ_lt hi)) (List.getElem?_eq_getElem hi)

/-- The way from the scope in slot `i` to the root has `i + 1` scopes. -/
theorem Linked.climb_eq (hs : s.Linked) {fuel : Nat} (hi : s.toList[i]? = some t)
    (hf : i < fuel) : s.climb fuel (some t.handle) = (s.toList.take (i + 1)).reverse := by
  have htake : s.toList.take (i + 1) = s.toList.take i ++ [t] := by
    rw [List.take_add_one, hi, Option.toList_some]
  have hw : s.Way (s.toList.take (i + 1) ++ s.toList.drop (i + 1)) := by
    rw [List.take_append_drop]
    exact hs.way
  rw [htake] at hw ⊢
  exact hw.of_append.climb_eq hs.slotted (Nat.lt_of_le_of_lt (List.length_take_le i _) hf)

theorem Linked.ancestors_eq (hs : s.Linked) (hi : s.toList[i]? = some t) :
    s.ancestors t.handle = (s.toList.take (i + 1)).reverse :=
  hs.climb_eq hi (List.getElem?_eq_some_iff.mp hi).1

theorem Linked.pathOf_eq (hs : s.Linked) (hi : s.toList[i]? = some t) :
    s.pathOf t.handle = (s.toList.take (i + 1)).map Scope.label := by
  rw [pathOf, hs.ancestors_eq hi, List.map_reverse, List.reverse_reverse]

/-- From the innermost scope the way goes through all live scopes. -/
theorem Linked.ancestors_innermost (hs : s.Linked) :
    s.ancestors s.innermost.handle = s.toList.reverse := by
  have hi : s.inner.length + 1 = s.size := rfl
  rw [hs.ancestors_eq (getElem?_innermost hi), List.take_of_length_le (Nat.le_of_eq hi.symm)]

end ScopeStack

end SpacedNames
