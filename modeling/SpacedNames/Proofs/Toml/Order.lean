import SpacedNames.Proofs.Toml.Readers

/-!
# The order of a document's entries

* `Entries.InOrder`: no name stands twice among the entries of a table, and the entries stand in the
  order in which their keys stand in the text.
* `Key.Grows`: what a statement does to the keys of the document's table. Only its first key counts.
* `Descends`: the first keys of statements stand one behind the other. `statements_descend`: those of a
  text do.
* `read_inOrder`: what is read from a text is in order.
-/

namespace SpacedNames.Toml

open Reader

variable {dotted : Bool} {change : Option TableKind → Entries → Option Entries} {key : Key}
  {more ks ks' : List Key} {kind : Option TableKind} {es es' : Entries} {cs rest : List Char}

/-! ## Keys of a table -/

/-- The other key has another name and stands further behind in the text. -/
def Key.Before (key other : Key) : Prop :=
  key.name ≠ other.name ∧ other.mark < key.mark

namespace Entries

/-- The keys of the entries. -/
def keys (es : Entries) : List Key :=
  es.map Prod.fst

/-- No name stands twice, and the entries are in the order of their keys in the text. -/
def InOrder (es : Entries) : Prop :=
  es.keys.Pairwise Key.Before

@[simp] theorem keys_append (key : Key) (node : Node) : (es.append key node).keys = es.keys ++ [key] := by
  simp [append, keys]

@[simp] theorem keys_replace (name : String) (node : Node) : (es.replace name node).keys = es.keys := by
  unfold replace keys
  rw [List.map_map]
  apply List.map_congr_left
  intro e _
  show (if e.1.name == name then (e.1, node) else e).1 = e.1
  split <;> rfl

@[simp] theorem keys_erase (name : String) :
    (es.erase name).keys = es.keys.filter (·.name != name) := by
  unfold erase keys
  rw [List.filter_map]
  rfl

theorem isSome_find?_iff {name : String} :
    (es.find? name).isSome ↔ ∃ key ∈ es.keys, key.name = name := by
  simp [find?, keys]

end Entries

/-! ## Changes that are led by a key -/

/-- A key of this name is there already and all keys stay, or the key comes to the end, in place of
another one of its name. -/
inductive Key.Grows (key : Key) (ks : List Key) : List Key → Prop
  | held {old : Key} : old ∈ ks → old.name = key.name → Grows key ks ks
  | added : Grows key ks (ks.filter (·.name != key.name) ++ [key])

namespace Key.Grows

theorem mem (h : key.Grows ks ks') {k : Key} (hk : k ∈ ks') : k ∈ ks ∨ k = key := by
  cases h with
  | held => exact .inl hk
  | added =>
    obtain hk | hk := List.mem_append.mp hk
    · exact .inl (List.mem_of_mem_filter hk)
    · exact .inr (List.mem_singleton.mp hk)

theorem isSome_find? (h : key.Grows ks es.keys) : (es.find? key.name).isSome := by
  rw [Entries.isSome_find?_iff]
  generalize es.keys = ks' at h
  cases h with
  | held hold hname => exact ⟨_, hold, hname⟩
  | added => exact ⟨key, List.mem_append_right _ List.mem_cons_self, rfl⟩

/-- A key that stands behind all others keeps them in order. -/
theorem pairwise (h : key.Grows ks ks') (hks : ks.Pairwise Key.Before)
    (hmark : ∀ k ∈ ks, key.mark < k.mark) : ks'.Pairwise Key.Before := by
  cases h with
  | held => exact hks
  | added =>
    refine List.pairwise_append.mpr ⟨hks.filter _, List.pairwise_singleton _ _, ?_⟩
    intro k hk last hlast
    rw [List.mem_singleton.mp hlast]
    obtain ⟨hk, hname⟩ := List.mem_filter.mp hk
    exact ⟨bne_iff_ne.mp hname, hmark k hk⟩

/-- A new name comes to the end. -/
theorem of_find?_eq_none (h : es.find? key.name = none) : key.Grows es.keys (es.keys ++ [key]) := by
  have hfilter : es.keys.filter (·.name != key.name) = es.keys := by
    refine List.filter_eq_self.mpr fun k hk => bne_iff_ne.mpr fun hname => ?_
    exact (Option.isSome_iff_ne_none.mp (Entries.isSome_find?_iff.mpr ⟨k, hk, hname⟩)) h
  have hadded : key.Grows es.keys (es.keys.filter (·.name != key.name) ++ [key]) := .added
  rwa [hfilter] at hadded

/-- A name that is there stays where it is. -/
theorem of_isSome_find? (h : (es.find? key.name).isSome) : key.Grows es.keys es.keys := by
  obtain ⟨k, hk, hname⟩ := Entries.isSome_find?_iff.mp h
  exact .held hk hname

end Key.Grows

/-- Whatever is changed further down, the first key of the path comes to the end or is there already. -/
theorem growAt_cons (h : growAt dotted change (key :: more) kind es = some es') :
    (es.find? key.name = none ∧ es'.keys = es.keys ++ [key]) ∨
      ((es.find? key.name).isSome ∧ es'.keys = es.keys) := by
  unfold growAt at h
  -- The key is new, or it leads into a table or into the last table of a repeated header.
  split at h
  · obtain ⟨inner, -, h⟩ := Option.bind_eq_some_iff.mp h
    cases h
    exact .inl ⟨‹_›, Entries.keys_append _ _⟩
  · rename_i hfind
    split at h
    · cases h
    · obtain ⟨inner, -, h⟩ := Option.bind_eq_some_iff.mp h
      cases h
      exact .inr ⟨hfind ▸ rfl, Entries.keys_replace _ _⟩
  · rename_i hfind
    split at h
    · obtain ⟨inner, -, h⟩ := Option.bind_eq_some_iff.mp h
      cases h
      exact .inr ⟨hfind ▸ rfl, Entries.keys_replace _ _⟩
    · cases h
  · cases h
  · cases h

/-- The keys of a path before the last one lead to the table that is changed. Where there are none, the
last key is the first, and it is the change that counts. -/
theorem growAt_dropLast {last : Key} (hlast : (key :: more).getLast? = some last)
    (h : growAt dotted change (key :: more).dropLast kind es = some es')
    (hchange : last = key → change kind es = some es' → key.Grows es.keys es'.keys) :
    key.Grows es.keys es'.keys := by
  cases more with
  | nil => exact hchange (Option.some.inj hlast).symm h
  | cons next more =>
    obtain ⟨hnone, hkeys⟩ | ⟨hsome, hkeys⟩ := growAt_cons h
    · rw [hkeys]
      exact .of_find?_eq_none hnone
    · rw [hkeys]
      exact .of_isSome_find? hsome

/-- **A key with dots and its value** make the table grow by the first part of the key. -/
theorem addEntry_grows {value : Node} (h : addEntry (key :: more) value es = some es') :
    key.Grows es.keys es'.keys := by
  unfold addEntry at h
  split at h
  · refine growAt_dropLast ‹_› h fun hkey hadd => ?_
    subst hkey
    unfold addNew at hadd
    split at hadd
    · cases hadd
    · split at hadd
      · cases hadd
      · cases hadd
        rw [Entries.keys_append]
        exact .of_find?_eq_none (Option.not_isSome_iff_eq_none.mp ‹_›)
  · cases h

/-- **A header** makes the table grow by its first key. -/
theorem openTable_grows {mark : Nat} (h : openTable mark (key :: more) es = some es') :
    key.Grows es.keys es'.keys := by
  unfold openTable at h
  split at h
  · refine growAt_dropLast ‹_› h fun hkey hopen => ?_
    subst hkey
    split at hopen
    · cases hopen
      rw [Entries.keys_append]
      exact .of_find?_eq_none ‹_›
    · cases hopen
      rw [Entries.keys_append, Entries.keys_erase]
      exact .added
    · cases hopen
  · cases h

/-- **A repeated header** makes the table grow by its first key. -/
theorem openElement_grows {mark : Nat} (h : openElement mark (key :: more) es = some es') :
    key.Grows es.keys es'.keys := by
  unfold openElement at h
  split at h
  · refine growAt_dropLast ‹_› h fun hkey hopen => ?_
    subst hkey
    split at hopen
    · cases hopen
      rw [Entries.keys_append]
      exact .of_find?_eq_none ‹_›
    · rename_i hfind
      cases hopen
      rw [Entries.keys_replace]
      exact .of_isSome_find? (hfind ▸ rfl)
    · cases hopen
  · cases h

/-! ## Statements -/

/-- The keys of a header, or of an entry. -/
def Statement.path : Statement → List Key
  | .header _ path | .repeated _ path | .entry path _ => path

/-- The first keys of the statements stand one behind the other, and no more than so many characters
before the end of the text. -/
def Descends : Nat → List Statement → Prop
  | _, [] => True
  | n, x :: xs => ∃ key more, x.path = key :: more ∧ key.mark ≤ n ∧ ∃ m < key.mark, Descends m xs

theorem Descends.mono {n m : Nat} {xs : List Statement} (h : Descends n xs) (hle : n ≤ m) :
    Descends m xs := by
  cases xs with
  | nil => exact True.intro
  | cons x xs =>
    obtain ⟨key, more, hpath, hmark, hrest⟩ := h
    exact ⟨key, more, hpath, hmark.trans hle, hrest⟩

/-- The first key of the statement stands within what is read, and not at its end. -/
def ReadsKey (r : Reader Statement) : Prop :=
  ∀ {cs x rest}, r cs = some (x, rest) →
    ∃ key more, x.path = key :: more ∧ rest.length < key.mark ∧ key.mark ≤ cs.length

/-- A key between an opening and a closing, of which the closing takes something. -/
theorem readsKey_enclosed {opening closing : Reader Unit} {statement : Nat → List Key → Statement}
    [Advances opening] (hpath : ∀ mark path, (statement mark path).path = path)
    (hclosing : ∀ {cs u rest}, closing cs = some (u, rest) → rest.length < cs.length) :
    ReadsKey do
      let mark ← mark
      opening
      let path ← path
      closing
      return statement mark path := by
  intro cs x rest h
  obtain ⟨_, _, hmark, h⟩ := bind_eq_some_iff.mp h
  obtain ⟨_, start, hopening, h⟩ := bind_eq_some_iff.mp h
  obtain ⟨keys, mid, hkeys, h⟩ := bind_eq_some_iff.mp h
  obtain ⟨_, stop, hstop, h⟩ := bind_eq_some_iff.mp h
  obtain ⟨rfl, rfl⟩ := pure_eq_some_iff.mp h
  cases hmark
  obtain ⟨key, more, rfl, hlow, hhigh⟩ := path_cons hkeys
  exact ⟨key, more, hpath _ _, (hclosing hstop).trans_le hlow,
    hhigh.trans (Advances.length_le hopening)⟩

theorem readsKey_header : ReadsKey header :=
  readsKey_enclosed (fun _ _ => rfl) char_length_lt

theorem readsKey_repeatedHeader : ReadsKey repeatedHeader := by
  refine readsKey_enclosed (fun _ _ => rfl) fun {cs u rest} h => ?_
  obtain ⟨_, mid, hfirst, hsecond⟩ := bind_eq_some_iff.mp h
  exact (Advances.length_le hsecond).trans_lt (char_length_lt hfirst)

theorem readsKey_keyValue : ReadsKey keyValue := by
  intro cs x rest h
  obtain ⟨_, _, hentry, h⟩ := bind_eq_some_iff.mp h
  obtain ⟨rfl, rfl⟩ := pure_eq_some_iff.mp h
  obtain ⟨_, mid, hpath, h⟩ := bind_eq_some_iff.mp hentry
  obtain ⟨_, start, hsign, h⟩ := bind_eq_some_iff.mp h
  obtain ⟨_, gap, hgap, h⟩ := bind_eq_some_iff.mp h
  obtain ⟨_, last, hvalue, h⟩ := bind_eq_some_iff.mp h
  obtain ⟨rfl, rfl⟩ := pure_eq_some_iff.mp h
  obtain ⟨key, more, rfl, hlow, hhigh⟩ := path_cons hpath
  have hlast : last.length ≤ start.length :=
    (Advances.length_le hvalue).trans (Advances.length_le hgap)
  exact ⟨key, more, rfl, (hlast.trans_lt (char_length_lt hsign)).trans_le hlow, hhigh⟩

/-- A header, a repeated header, or an entry. -/
theorem readsKey_statement : ReadsKey (repeatedHeader <|> header <|> keyValue) := by
  intro cs x rest h
  obtain h | h := orElse_eq_some h
  · exact readsKey_repeatedHeader h
  obtain h | h := orElse_eq_some h
  · exact readsKey_header h
  · exact readsKey_keyValue h

/-- **The statements of a text** have first keys that stand one behind the other. -/
theorem statements_descend {fuel : Nat} {xs : List Statement} (h : statements fuel cs = some (xs, rest)) :
    Descends cs.length xs := by
  induction fuel generalizing cs xs with
  | zero => cases h
  | succ fuel ih =>
    obtain ⟨_, start, hblanks, h⟩ := bind_eq_some_iff.mp h
    refine Descends.mono ?_ (Advances.length_le hblanks)
    -- The end, an empty line, a comment, or a statement and what follows it.
    obtain h | h := orElse_eq_some h
    · rw [seqRight_eq_bind] at h
      obtain ⟨_, _, -, h⟩ := bind_eq_some_iff.mp h
      obtain ⟨rfl, -⟩ := pure_eq_some_iff.mp h
      exact True.intro
    obtain h | h := orElse_eq_some h
    · rw [seqRight_eq_bind] at h
      obtain ⟨_, line, hline, h⟩ := bind_eq_some_iff.mp h
      exact (ih h).mono (Advances.length_le hline)
    obtain h | h := orElse_eq_some h
    · rw [seqRight_eq_bind] at h
      obtain ⟨_, line, hline, h⟩ := bind_eq_some_iff.mp h
      exact (ih h).mono (Advances.length_le hline)
    · obtain ⟨x, stop, hx, h⟩ := bind_eq_some_iff.mp h
      obtain ⟨_, line, hline, h⟩ := bind_eq_some_iff.mp h
      obtain ⟨xs, last, hxs, h⟩ := bind_eq_some_iff.mp h
      obtain ⟨rfl, rfl⟩ := pure_eq_some_iff.mp h
      obtain ⟨key, more, hpath, hlow, hhigh⟩ := readsKey_statement hx
      have hstop : line.length ≤ stop.length := Advances.length_le hline
      exact ⟨key, more, hpath, hhigh, line.length, by omega, ih hxs⟩

/-! ## Documents -/

/-- The table of the last header is one of the document's, or there was no header yet. -/
def Held (current : List Key) (es : Entries) : Prop :=
  ∀ key more, current = key :: more → (es.find? key.name).isSome

/-- **A statement** makes the document's table grow by its first key, unless that table is not the one of
the last header; then all keys stay. -/
theorem Statement.apply_keys {current current' : List Key} {x : Statement} (hx : x.path = key :: more)
    (hheld : Held current es) (h : x.apply current es = some (current', es')) :
    (key.Grows es.keys es'.keys ∨ es'.keys = es.keys) ∧ Held current' es' := by
  cases x with
  | header mark path =>
    cases hx
    obtain ⟨_, hopen, heq⟩ := Option.map_eq_some_iff.mp h
    cases heq
    have hgrows := openTable_grows hopen
    exact ⟨.inl hgrows, fun _ _ hcurrent => by cases hcurrent; exact hgrows.isSome_find?⟩
  | repeated mark path =>
    cases hx
    obtain ⟨_, hopen, heq⟩ := Option.map_eq_some_iff.mp h
    cases heq
    have hgrows := openElement_grows hopen
    exact ⟨.inl hgrows, fun _ _ hcurrent => by cases hcurrent; exact hgrows.isSome_find?⟩
  | entry path value =>
    cases hx
    obtain ⟨_, hgrow, heq⟩ := Option.map_eq_some_iff.mp h
    cases heq
    cases current with
    | nil => exact ⟨.inl (addEntry_grows hgrow), fun _ _ hcurrent => nomatch hcurrent⟩
    | cons table path =>
      have hsome := hheld table path rfl
      obtain ⟨hnone, -⟩ | ⟨-, hkeys⟩ := growAt_cons hgrow
      · rw [hnone] at hsome
        cases hsome
      · refine ⟨.inr hkeys, fun first rest hcurrent => ?_⟩
        rw [Entries.isSome_find?_iff, hkeys, ← Entries.isSome_find?_iff]
        exact hheld first rest hcurrent

/-- Statements whose first keys stand one behind the other, and behind all keys so far, leave the
document in order. -/
theorem Statement.applyAll_inOrder {n : Nat} {current : List Key} {xs : List Statement}
    (hxs : Descends n xs) (hmark : ∀ k ∈ es.keys, n < k.mark) (hes : es.InOrder)
    (hheld : Held current es) (h : applyAll current es xs = some es') : es'.InOrder := by
  induction xs generalizing n current es with
  | nil =>
    cases h
    exact hes
  | cons x xs ih =>
    -- A key that comes to the end is the first of its statement, so the next statements are behind it.
    obtain ⟨key, more, hpath, hkey, m, hm, hrest⟩ := hxs
    unfold applyAll at h
    split at h
    · rename_i current' mid hx
      obtain ⟨hgrows | hkeys, hheld'⟩ := apply_keys hpath hheld hx
      · refine ih hrest (fun k hk => ?_) ?_ hheld' h
        · obtain hk | rfl := hgrows.mem hk
          · exact (hm.trans_le hkey).trans (hmark k hk)
          · exact hm
        · exact hgrows.pairwise hes fun k hk => hkey.trans_lt (hmark k hk)
      · refine ih hrest (fun k hk => ?_) ?_ hheld' h
        · rw [hkeys] at hk
          exact (hm.trans_le hkey).trans (hmark k hk)
        · rw [Entries.InOrder, hkeys]
          exact hes
    · cases h

/-- **The entries of a document** have different names and are in the order of their keys. -/
theorem read_inOrder (h : read cs = some es) : es.InOrder := by
  unfold read at h
  obtain ⟨⟨xs, rest⟩, hread, h⟩ := Option.bind_eq_some_iff.mp h
  refine Statement.applyAll_inOrder (statements_descend hread) ?_ ?_ ?_ h
  · exact fun k hk => nomatch hk
  · exact List.Pairwise.nil
  · exact fun _ _ hcurrent => nomatch hcurrent

end SpacedNames.Toml
