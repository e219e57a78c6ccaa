import Mathlib.Data.List.Dedup
import Mathlib.Data.List.Forall2
import Mathlib.Data.List.Nodup
import SpacedNames.Proofs.Scoping.Blocks
import SpacedNames.Proofs.Scoping.Lookup

/-!
# Environments that look alike

A scope keeps its names in some order of its own, and it takes them in the order in which they are
bound. Neither can be seen from outside: names are found by their keys, and listed by their spelling.
Two environments may have taken their names in different orders, and bound some of them more often than
others. What is visible is the same as soon as each live scope ends with the same names.

* `EndAlike xs ys`: under each key the last name of the two lists is the same.
* `Bindings.perm_of_find?_eq`: bindings that agree under each key hold the same names.
* `Bindings.sorted_increasing`, `sorted_congr`: no two names of a scope are spelled alike, so the order
  by spelling leaves no choice.
* `Scope.LooksLike`: every question about one scope and its names has the same answer in the other.
  `LooksLike.of_find?_eq`: it is enough that they agree under each key.
* `Scope.Shows`: the names of a scope, told by the list of those that were ever bound in it.
* `Environment.forall₂_visible`: where the live scopes look alike one by one, so do the visible ones.
* `Environment.AnswersLike`: every name is found, and every run of tokens recognized, as in the other
  environment. `answersLike_of_looksLike`: this is so where the live scopes look alike.
* `Environment.Reordered`: two runs whose live scopes have histories that end alike.
  `run_looksLike`: then the scopes look alike.
* `Environment.order_irrelevant`: all of this together, with what a scope shows.
-/

namespace SpacedNames

open Text

/-! ## The last name of a key -/

section Names

variable {key : String} {xs ys : List Name} {n : Name}

/-- The two lists have the same last name under each key. -/
def EndAlike (xs ys : List Name) : Prop :=
  ∀ key, lastOf key xs = lastOf key ys

theorem lastOf_eq_none_of_not_mem (h : ∀ n ∈ xs, n.key ≠ key) : lastOf key xs = none := by
  rw [← Option.not_isSome_iff_eq_none, isSome_lastOf_iff]
  rintro ⟨n, hn, hk⟩
  exact h n hn hk

/-- The keys that occur decide it, so it can be computed. -/
instance : DecidableRel EndAlike := fun xs ys =>
  decidable_of_iff (∀ n ∈ xs ++ ys, lastOf n.key xs = lastOf n.key ys) <| by
    refine ⟨fun h key => ?_, fun h n _ => h n.key⟩
    by_cases hkey : ∃ n ∈ xs ++ ys, n.key = key
    · obtain ⟨n, hn, rfl⟩ := hkey
      exact h n hn
    · rw [lastOf_eq_none_of_not_mem fun n hn hk => hkey ⟨n, List.mem_append_left ys hn, hk⟩,
        lastOf_eq_none_of_not_mem fun n hn hk => hkey ⟨n, List.mem_append_right xs hn, hk⟩]

/-- Where no key occurs twice, each name is the last one of its key. -/
theorem lastOf_eq_some_iff_of_nodup (hd : (xs.map Name.key).Nodup) :
    lastOf key xs = some n ↔ n ∈ xs ∧ n.key = key := by
  have hlast {m : Name} (hm : lastOf key xs = some m) : m ∈ xs ∧ m.key = key := by
    simpa using List.mem_filter.mp (List.mem_of_getLast? hm)
  refine ⟨hlast, ?_⟩
  rintro ⟨hn, hkey⟩
  obtain ⟨m, hm⟩ := Option.isSome_iff_exists.mp (isSome_lastOf_iff.mpr ⟨n, hn, hkey⟩)
  obtain ⟨hmem, hmkey⟩ := hlast hm
  rw [hm, List.inj_on_of_nodup_map hd hmem hn (hmkey.trans hkey.symm)]

/-- **Names of different keys may come in any order.** -/
theorem endAlike_of_perm (h : xs.Perm ys) (hd : (xs.map Name.key).Nodup) : EndAlike xs ys := by
  intro key
  have hd' : (ys.map Name.key).Nodup := (h.map Name.key).nodup_iff.mp hd
  refine Option.ext fun n => ?_
  rw [lastOf_eq_some_iff_of_nodup hd, lastOf_eq_some_iff_of_nodup hd', h.mem_iff]

/-! ## Bindings -/

namespace Bindings

variable {b c : Bindings}

theorem find?_eq_lastOf (b : Bindings) (key : String) : b.find? key = lastOf key b.toList :=
  Option.ext fun n => by rw [find?_eq_some_iff, lastOf_eq_some_iff_of_nodup b.distinct]

/-- Where the names stand in the list does not matter. -/
theorem find?_congr (h : b.toList.Perm c.toList) (key : String) : b.find? key = c.find? key := by
  rw [find?_eq_lastOf, find?_eq_lastOf]
  exact endAlike_of_perm h b.distinct key

/-- **Bindings that agree under each key hold the same names.** -/
theorem perm_of_find?_eq (h : ∀ key, b.find? key = c.find? key) : b.toList.Perm c.toList := by
  have hmem (d : Bindings) (n : Name) : n ∈ d.toList ↔ d.find? n.key = some n := by
    rw [find?_eq_some_iff, and_iff_left rfl]
  refine (List.perm_ext_iff_of_nodup (b.distinct.of_map _) (c.distinct.of_map _)).mpr fun n => ?_
  rw [hmem b, hmem c, h]

/-- A name is stored under the normal form of its spelling, so no two are spelled alike. -/
theorem eq_of_spelling_eq {m : Name} (hm : m ∈ b.toList) (hn : n ∈ b.toList)
    (h : m.spelling = n.spelling) : m = n := by
  have hkey : m.key = n.key := by rw [m.key_eq, n.key_eq, h]
  exact List.inj_on_of_nodup_map b.distinct hm hn hkey

theorem sorted_perm (b : Bindings) : b.sorted.Perm b.toList :=
  List.mergeSort_perm _ _

theorem mem_sorted : n ∈ b.sorted ↔ n ∈ b.toList :=
  b.sorted_perm.mem_iff

/-- **The spellings strictly increase.** -/
theorem sorted_increasing (b : Bindings) :
    b.sorted.Pairwise fun m n => m.spelling < n.spelling := by
  have htrans : ∀ l m n : Name, decide (l.spelling ≤ m.spelling) = true →
      decide (m.spelling ≤ n.spelling) = true → decide (l.spelling ≤ n.spelling) = true := by
    intro l m n hlm hmn
    rw [decide_eq_true_eq] at hlm hmn ⊢
    exact String.le_trans hlm hmn
  have htotal : ∀ m n : Name,
      (decide (m.spelling ≤ n.spelling) || decide (n.spelling ≤ m.spelling)) = true := by
    intro m n
    rw [Bool.or_eq_true, decide_eq_true_eq, decide_eq_true_eq]
    exact String.le_total m.spelling n.spelling
  have hle := List.pairwise_mergeSort htrans htotal b.toList
  have hne : b.sorted.Nodup := b.sorted_perm.nodup_iff.mpr (b.distinct.of_map _)
  refine List.Pairwise.imp_of_mem ?_ (hle.and hne)
  rintro m n hm hn ⟨hmn, hdiff⟩
  refine Std.lt_of_le_of_ne (of_decide_eq_true hmn) fun hspell => hdiff ?_
  exact eq_of_spelling_eq (mem_sorted.mp hm) (mem_sorted.mp hn) hspell

/-- **The order by spelling leaves no choice**: it forgets the order of the list. -/
theorem sorted_congr (h : b.toList.Perm c.toList) : b.sorted = c.sorted := by
  refine List.Perm.eq_of_pairwise ?_ b.sorted_increasing c.sorted_increasing
    (b.sorted_perm.trans (h.trans c.sorted_perm.symm))
  intro m n _ _ hmn hnm
  exact absurd hnm (String.lt_asymm hmn)

end Bindings

/-! ## Scopes -/

namespace Scope

variable {s t : Scope}

/-- Whatever is asked of the scopes, the answer is the same. -/
structure LooksLike (s t : Scope) : Prop where
  made : s.MadeWith t.handle t.label t.parent
  size : s.size = t.size
  names : s.names = t.names
  get? : ∀ spelling, s.get? spelling = t.get? spelling
  contains : ∀ spelling, s.contains spelling = t.contains spelling
  find? : ∀ key, s.find? key = t.find? key
  hasContinuation : ∀ key, s.hasContinuation key = t.hasContinuation key

/-- **Scopes that agree under each key look alike.** -/
theorem LooksLike.of_find?_eq (hm : s.MadeWith t.handle t.label t.parent)
    (h : ∀ key, s.find? key = t.find? key) : s.LooksLike t := by
  have hperm : s.bindings.toList.Perm t.bindings.toList := Bindings.perm_of_find?_eq h
  have hget : ∀ spelling, s.get? spelling = t.get? spelling := by
    intro spelling
    rw [Scope.get?, Scope.get?, h]
  refine ⟨hm, hperm.length_eq, Bindings.sorted_congr hperm, hget, fun spelling => ?_, h,
    fun key => ?_⟩
  · rw [Scope.contains, Scope.contains, hget]
  · exact hperm.any_eq

theorem madeWith_foldl_bind (names : List Name) (s : Scope) :
    (names.foldl bind s).MadeWith s.handle s.label s.parent := by
  induction names generalizing s with
  | nil => exact ⟨rfl, rfl, rfl⟩
  | cons n rest ih => exact ih (s.bind n)

/-- **Names that end alike make scopes that look alike**, in whatever order they are bound and whatever
gave way on the way. -/
theorem looksLike_foldl_bind (h : EndAlike xs ys) (s : Scope) :
    (xs.foldl bind s).LooksLike (ys.foldl bind s) := by
  obtain ⟨hhandle, hlabel, hparent⟩ := madeWith_foldl_bind ys s
  refine .of_find?_eq ?_ fun key => ?_
  · rw [hhandle, hlabel, hparent]
    exact madeWith_foldl_bind xs s
  · rw [find?_foldl_bind, find?_foldl_bind, h key]

/-- **The order in which a scope keeps its names cannot be seen.** -/
theorem looksLike_of_perm {b : Bindings} (h : b.toList.Perm s.bindings.toList) :
    { s with bindings := b }.LooksLike s :=
  .of_find?_eq ⟨rfl, rfl, rfl⟩ fun key => Bindings.find?_congr h key

/-- The names of the scope are the last ones of the list, one for each key that occurs in it. -/
structure Shows (s : Scope) (bound : List Name) : Prop where
  /-- No two names are spelled alike. -/
  increasing : s.names.Pairwise fun m n => m.spelling < n.spelling
  mem_iff : ∀ n, n ∈ s.names ↔ lastOf n.key bound = some n
  keys : (s.names.map Name.key).Perm (bound.map Name.key).dedup

theorem nodup_keys_names (s : Scope) : (s.names.map Name.key).Nodup :=
  (s.bindings.sorted_perm.map Name.key).nodup_iff.mpr s.bindings.distinct

/-- A scope that holds the last name of a list under each key shows the names of this list. -/
theorem shows_of_find?_eq {bound : List Name} (h : ∀ key, s.find? key = lastOf key bound) :
    s.Shows bound := by
  have hmem (n : Name) : n ∈ s.names ↔ lastOf n.key bound = some n := by
    rw [← h, find?_eq_some_iff, and_iff_left rfl]
    exact Bindings.mem_sorted
  refine ⟨s.bindings.sorted_increasing, hmem, ?_⟩
  refine (List.perm_ext_iff_of_nodup s.nodup_keys_names (List.nodup_dedup _)).mpr fun key => ?_
  rw [List.mem_dedup, List.mem_map, List.mem_map]
  constructor
  · rintro ⟨n, hn, rfl⟩
    exact isSome_lastOf_iff.mp (Option.isSome_iff_exists.mpr ⟨n, (hmem n).mp hn⟩)
  · intro hbound
    obtain ⟨n, hn⟩ := Option.isSome_iff_exists.mp (isSome_lastOf_iff.mpr hbound)
    obtain ⟨-, rfl⟩ := find?_eq_some_iff.mp ((h key).trans hn)
    exact ⟨n, (hmem n).mpr hn, rfl⟩

/-- **What a scope shows after names were bound in it**: those it had and those that came. -/
theorem shows_foldl_bind (s : Scope) (names : List Name) :
    (names.foldl bind s).Shows (s.names ++ names) := by
  refine shows_of_find?_eq fun key => ?_
  have hown : s.find? key = lastOf key s.names := by
    rw [find?, Bindings.find?_eq_lastOf]
    exact endAlike_of_perm s.bindings.sorted_perm.symm s.bindings.distinct key
  rw [find?_foldl_bind, lastOf_append, hown]

end Scope

end Names

/-! ## Visible scopes -/

variable {s s' : ScopeStack} {near far : List Scope}

theorem map_handle_of_looksLike (h : List.Forall₂ Scope.LooksLike near far) :
    near.map Scope.handle = far.map Scope.handle := by
  induction h with
  | nil => rfl
  | cons ht _ ih => rw [List.map_cons, List.map_cons, ht.made.handle_eq, ih]

/-- A handle stands in both for scopes that look alike, or in neither for any. -/
theorem ScopeStack.scope?_looksLike (h : List.Forall₂ Scope.LooksLike s.toList s'.toList)
    (handle : Handle) : (s.scope? handle = none ∧ s'.scope? handle = none) ∨
      ∃ t t', s.scope? handle = some t ∧ s'.scope? handle = some t' ∧ t.LooksLike t' := by
  rw [scope?, scope?]
  generalize s.toList = xs at h
  generalize s'.toList = ys at h
  generalize handle.slot = i
  induction h generalizing i with
  | nil => exact .inl ⟨rfl, rfl⟩
  | @cons t t' xs ys ht _ ih =>
    cases i with
    | succ i => exact ih i
    | zero =>
      rw [List.getElem?_cons_zero, List.getElem?_cons_zero]
      by_cases hh : t'.handle = handle
      · exact .inr ⟨t, t', by simp [ht.made.handle_eq, hh], by simp [hh], ht⟩
      · exact .inl ⟨by simp [ht.made.handle_eq, hh], by simp [hh]⟩

/-- The ways to the root go through scopes that look alike. -/
theorem ScopeStack.climb_looksLike (h : List.Forall₂ Scope.LooksLike s.toList s'.toList)
    (fuel : Nat) (from? : Option Handle) :
    List.Forall₂ Scope.LooksLike (s.climb fuel from?) (s'.climb fuel from?) := by
  induction fuel generalizing from? with
  | zero => exact .nil
  | succ fuel ih =>
    cases from? with
    | none => exact .nil
    | some handle =>
      rw [climb, climb]
      obtain ⟨hn, hn'⟩ | ⟨t, t', ht, ht', hlike⟩ := scope?_looksLike h handle
      · rw [hn, hn']
        exact .nil
      · rw [ht, ht']
        simp only
        rw [hlike.made.parent_eq]
        exact .cons hlike (ih _)

/-! ## Answers -/

/-- A search through scopes that look alike finds the same. -/
theorem findSome?_looksLike (h : List.Forall₂ Scope.LooksLike near far) (spelling : String) :
    near.findSome? (fun t => (t.get? spelling).map (Resolution.mk · t.handle)) =
      far.findSome? fun t => (t.get? spelling).map (Resolution.mk · t.handle) := by
  induction h with
  | nil => rfl
  | cons ht _ ih => rw [List.findSome?_cons, List.findSome?_cons, ht.get?, ht.made.handle_eq, ih]

/-- A candidate stands in scopes that look alike as it does in the others. -/
theorem Standing.foldl_see_looksLike (h : List.Forall₂ Scope.LooksLike near far) (key : String)
    (standing : Standing) : near.foldl (see key) standing = far.foldl (see key) standing := by
  induction h generalizing standing with
  | nil => rfl
  | cons ht _ ih =>
    rw [List.foldl_cons, List.foldl_cons, ih, see, see, ht.find?, ht.made.handle_eq,
      ht.hasContinuation]

namespace Environment

variable {e e' fresh fresh' : Environment} {builtins builtins' : List String}
  {commands commands' : List Command}

theorem forall₂_visible (hc : e.current = e'.current)
    (h : List.Forall₂ Scope.LooksLike e.scopes.toList e'.scopes.toList) :
    List.Forall₂ Scope.LooksLike e.visible e'.visible := by
  rw [visible, visible, hc, ScopeStack.ancestors, ScopeStack.ancestors, ScopeStack.size,
    ScopeStack.size, h.length_eq]
  exact ScopeStack.climb_looksLike h _ _

/-- Every question about visible names has the same answer in the other environment. -/
structure AnswersLike (e e' : Environment) : Prop where
  lookup : ∀ spelling, e.lookup spelling = e'.lookup spelling
  standing : ∀ candidate, e.standing candidate = e'.standing candidate
  longestMatch : ∀ texts, e.longestMatch texts = e'.longestMatch texts

/-- **Environments whose live scopes look alike answer alike.** -/
theorem answersLike_of_looksLike (hc : e.current = e'.current)
    (h : List.Forall₂ Scope.LooksLike e.scopes.toList e'.scopes.toList) : e.AnswersLike e' := by
  have hvisible := forall₂_visible hc h
  have hstanding : ∀ candidate, e.standing candidate = e'.standing candidate := by
    intro candidate
    rw [Environment.standing, Environment.standing, Standing.scan_eq_foldl, Standing.scan_eq_foldl]
    exact Standing.foldl_see_looksLike hvisible _ _
  exact ⟨findSome?_looksLike hvisible, hstanding, longestMatch_congr hstanding⟩

/-! ## Runs -/

/-- The live scopes of the two environments are the same, and the names that were ever bound in each of
them end alike. -/
def Reordered (builtins : List String) (e : Environment) (builtins' : List String)
    (e' : Environment) : Prop :=
  List.Forall₂ (fun s t => s.MadeWith t.handle t.label t.parent ∧
    EndAlike (s.history builtins e.registry) (t.history builtins' e'.registry))
    e.scopes.toList e'.scopes.toList

/-- The current scope is the last of the live ones. -/
theorem Chained.current_eq_of_looksLike (he : e.Chained) (he' : e'.Chained)
    (h : List.Forall₂ Scope.LooksLike e.scopes.toList e'.scopes.toList) :
    e.current = e'.current := by
  have hlast := congrArg List.getLast? (map_handle_of_looksLike h)
  rw [List.getLast?_map, List.getLast?_map, he.orderly.opens, he'.orderly.opens] at hlast
  exact Option.some.inj hlast

/-- **Runs that bind names in another order have scopes that look alike**, if each scope ends with the
same names. -/
theorem run_looksLike (hf : Fresh builtins fresh) (hf' : Fresh builtins' fresh')
    (h : Reordered builtins (fresh.run commands) builtins' (fresh'.run commands')) :
    List.Forall₂ Scope.LooksLike (fresh.run commands).scopes.toList
      (fresh'.run commands').scopes.toList := by
  have hlog := (hf.run_logged commands).2
  have hlog' := (hf'.run_logged commands').2
  obtain ⟨hlength, hzip⟩ := List.forall₂_iff_zip.mp h
  refine List.forall₂_iff_zip.mpr ⟨hlength, fun {s t} hst => ?_⟩
  obtain ⟨hs, ht⟩ := List.of_mem_zip hst
  obtain ⟨hmade, hend⟩ := hzip hst
  exact .of_find?_eq hmade fun key => by rw [hlog.find s hs, hlog'.find t ht, hend key]

/-- **The order of declarations cannot be seen**, and neither can the order in which a scope keeps its
names. Only the last name of each key counts: names of different keys may be bound in any order. A scope
lists its names by their spelling, which strictly increases, one for each key that was ever bound in it.
Environments whose live scopes look alike have one answer to every question, and so do two runs whose
live scopes end with the same names. -/
theorem order_irrelevant :
    (∀ (s : Scope) (xs ys : List Name), EndAlike xs ys →
      (xs.foldl Scope.bind s).LooksLike (ys.foldl Scope.bind s)) ∧
    (∀ xs ys : List Name, xs.Perm ys → (xs.map Name.key).Nodup → EndAlike xs ys) ∧
    (∀ (s : Scope) (b : Bindings), b.toList.Perm s.bindings.toList →
      { s with bindings := b }.LooksLike s) ∧
    (∀ (s : Scope) (xs : List Name), (xs.foldl Scope.bind s).Shows (s.names ++ xs)) ∧
    (∀ e e' : Environment, e.current = e'.current →
      List.Forall₂ Scope.LooksLike e.scopes.toList e'.scopes.toList → e.AnswersLike e') ∧
    ∀ {builtins builtins' : List String} {fresh fresh' : Environment},
      Fresh builtins fresh → Fresh builtins' fresh' → ∀ commands commands' : List Command,
      Reordered builtins (fresh.run commands) builtins' (fresh'.run commands') →
      List.Forall₂ Scope.LooksLike (fresh.run commands).scopes.toList
          (fresh'.run commands').scopes.toList ∧
        (fresh.run commands).AnswersLike (fresh'.run commands') := by
  refine ⟨fun s xs ys h => Scope.looksLike_foldl_bind h s, fun xs ys => endAlike_of_perm,
    fun s b => Scope.looksLike_of_perm, Scope.shows_foldl_bind,
    fun e e' => answersLike_of_looksLike, ?_⟩
  intro builtins builtins' fresh fresh' hf hf' commands commands' h
  have hlike := run_looksLike hf hf' h
  have hcurrent := (hf.chained.run commands).current_eq_of_looksLike (hf'.chained.run commands') hlike
  exact ⟨hlike, answersLike_of_looksLike hcurrent hlike⟩

/-- Two names change places, one of them is first bound under another spelling, and a block that is
closed again comes in between. -/
theorem order_irrelevant_interleaved :
    (∀ s : Scope,
      ([.declared "gross", .declared "net  sum", .declared "net sum"].foldl Scope.bind s).LooksLike
        ([.declared "net sum", .declared "gross"].foldl Scope.bind s)) ∧
    EndAlike [.declared "net sum", .declared "gross"] [.declared "gross", .declared "net sum"] ∧
    (∃ b b' : Bindings, b.toList = [.declared "net sum", .declared "gross"] ∧
      b'.toList = [.declared "gross", .declared "net sum"] ∧
      ∀ s : Scope, { s with bindings := b }.LooksLike { s with bindings := b' }) ∧
    Fresh ["tax"] (withBuiltins "root" ["tax"]) ∧
    ∃ e e' : Environment,
      e = (withBuiltins "root" ["tax"]).run [.openScope "outer", .declare (.declared "gross"),
        .declare (.declared "net  sum"), .declare (.declared "net sum")] ∧
      e' = (withBuiltins "root" ["tax"]).run [.openScope "outer", .declare (.declared "net sum"),
        .openScope "inner", .declare (.declared "rate"), .closeScope,
        .declare (.declared "gross")] ∧
      Reordered ["tax"] e ["tax"] e' ∧ e.AnswersLike e' := by
  obtain ⟨hends, hperm, hkept, -, hlike, hruns⟩ := order_irrelevant
  have hf : Fresh ["tax"] (withBuiltins "root" ["tax"]) := .withBuiltins "root" _
  have hswap : List.Perm [Name.declared "net sum", .declared "gross"]
      [.declared "gross", .declared "net sum"] := .swap _ _ _
  refine ⟨fun s => hends s _ _ (by decide +kernel), hperm _ _ hswap (by decide +kernel),
    ⟨⟨_, by decide +kernel⟩, ⟨_, by decide +kernel⟩, rfl, rfl, fun s => ?_⟩, hf, _, _, rfl, rfl, ?_⟩
  · exact hkept { s with bindings := ⟨_, by decide +kernel⟩ } ⟨_, by decide +kernel⟩ hswap
  have hreordered : Reordered
      ["tax"] ((withBuiltins "root" ["tax"]).run [.openScope "outer", .declare (.declared "gross"),
        .declare (.declared "net  sum"), .declare (.declared "net sum")])
      ["tax"] ((withBuiltins "root" ["tax"]).run [.openScope "outer", .declare (.declared "net sum"),
        .openScope "inner", .declare (.declared "rate"), .closeScope,
        .declare (.declared "gross")]) :=
    .cons ⟨⟨rfl, rfl, rfl⟩, by decide +kernel⟩ (.cons ⟨⟨rfl, rfl, rfl⟩, by decide +kernel⟩ .nil)
  exact ⟨hreordered, hlike _ _ rfl (hruns hf hf _ _ hreordered).1⟩

end Environment

end SpacedNames
