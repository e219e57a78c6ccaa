import SpacedNames.Text.Words

/-!
# Ranges of a text

A range goes from one byte offset to another. Whether there is a text between the two, and which, is
told by the UTF-8 form alone.

* `byteLength_eq_utf8ByteSize`: lengths are those of the UTF-8 form. `isValid_iff_exists_append`: an
  offset is on a character boundary exactly when the text can be parted there.
* `IsRange text start stop`: both offsets are on character boundaries of the text, and the first is not
  behind the second.
* `Reads text start stop part`: `part` has the bytes of the range. `reads_iff_exists_append` tells the
  same by characters, and `slice?_eq_some_iff` finds it as a slice.
* `Reads.within`: a range inside of another one is read from the text of the outer one, with the offsets
  counted from there.
-/

namespace SpacedNames.Text

variable {text part : String} {start stop n : Nat} {cs xs ys : List Char}

/-! ## Offsets in characters -/

theorem byteLength_eq_utf8ByteSize (cs : List Char) :
    byteLength cs = (String.ofList cs).utf8ByteSize := by
  induction cs with
  | nil => simp
  | cons c cs ih => simp [String.ofList_cons, String.utf8ByteSize_append, ih]

/-- **An offset is on a character boundary** exactly when so many bytes stand before some place in the
text. -/
theorem isValid_iff_exists_append :
    String.Pos.Raw.IsValid text ⟨n⟩ ↔
      ∃ before after, text.toList = before ++ after ∧ n = byteLength before := by
  rw [String.Pos.Raw.isValid_iff_exists_append]
  constructor
  · rintro ⟨before, after, rfl, hn⟩
    refine ⟨before.toList, after.toList, String.toList_append, ?_⟩
    rw [byteLength_eq_utf8ByteSize, String.ofList_toList]
    exact congrArg String.Pos.Raw.byteIdx hn
  · rintro ⟨before, after, htext, rfl⟩
    refine ⟨String.ofList before, String.ofList after, ?_, ?_⟩
    · rw [← String.ofList_append, ← htext, String.ofList_toList]
    · rw [byteLength_eq_utf8ByteSize]
      rfl

/-- What can be dropped is an initial part of so many bytes. -/
theorem dropBytes?_eq_some_iff :
    dropBytes? n cs = some ys ↔ ∃ xs, cs = xs ++ ys ∧ n = byteLength xs := by
  constructor
  · intro h
    fun_induction dropBytes? n cs with
    | case1 cs => exact ⟨[], by simpa using h, rfl⟩
    | case2 => cases h
    | case3 n c cs hle ih =>
      obtain ⟨xs, rfl, hn⟩ := ih h
      refine ⟨c :: xs, rfl, ?_⟩
      rw [byteLength_cons]
      omega
    | case4 => cases h
  · rintro ⟨xs, rfl, rfl⟩
    exact dropBytes?_append xs ys

/-- What can be taken is an initial part of so many bytes. -/
theorem takeBytes?_eq_some_iff :
    takeBytes? n cs = some xs ↔ ∃ ys, cs = xs ++ ys ∧ n = byteLength xs := by
  constructor
  · intro h
    fun_induction takeBytes? n cs generalizing xs with
    | case1 cs =>
      obtain rfl := Option.some.inj h
      exact ⟨cs, rfl, rfl⟩
    | case2 => cases h
    | case3 n c cs hle ih =>
      obtain ⟨front, hfront, rfl⟩ := Option.map_eq_some_iff.mp h
      obtain ⟨ys, rfl, hn⟩ := ih hfront
      refine ⟨ys, rfl, ?_⟩
      rw [byteLength_cons]
      omega
    | case4 => cases h
  · rintro ⟨ys, rfl, rfl⟩
    exact takeBytes?_append xs ys

/-- Of two initial parts of a text the one with fewer bytes is an initial part of the other. -/
theorem exists_append_of_byteLength_le {xs' ys' : List Char} (h : xs ++ ys = xs' ++ ys')
    (hle : byteLength xs ≤ byteLength xs') : ∃ mid, xs' = xs ++ mid ∧ ys = mid ++ ys' := by
  rcases List.append_eq_append_iff.mp h with ⟨mid, hxs, hys⟩ | ⟨mid, rfl, rfl⟩
  · exact ⟨mid, hxs, hys⟩
  · cases mid with
    | nil => exact ⟨[], by simp, by simp⟩
    | cons c mid =>
      have := c.utf8Size_pos
      rw [byteLength_append, byteLength_cons] at hle
      omega

/-! ## Ranges -/

/-- The text can be cut at both offsets, and the first one is not behind the second. -/
structure IsRange (text : String) (start stop : Nat) : Prop where
  start_le_stop : start ≤ stop
  stop_le_size : stop ≤ size text
  start_isValid : String.Pos.Raw.IsValid text ⟨start⟩
  stop_isValid : String.Pos.Raw.IsValid text ⟨stop⟩

theorem isRange_iff_exists_append : IsRange text start stop ↔
    ∃ before body after, text.toList = before ++ (body ++ after) ∧
      start = byteLength before ∧ stop = byteLength before + byteLength body := by
  constructor
  · rintro ⟨hle, -, hstart, hstop⟩
    obtain ⟨before, rest, htext, rfl⟩ := isValid_iff_exists_append.mp hstart
    obtain ⟨front, after, htext', rfl⟩ := isValid_iff_exists_append.mp hstop
    obtain ⟨body, rfl, rfl⟩ := exists_append_of_byteLength_le (htext ▸ htext') hle
    exact ⟨before, body, after, htext, rfl, byteLength_append before body⟩
  · rintro ⟨before, body, after, htext, rfl, rfl⟩
    refine ⟨Nat.le_add_right _ _, ?_, ?_, ?_⟩
    · rw [size, htext, byteLength_append, byteLength_append]
      omega
    · exact isValid_iff_exists_append.mpr ⟨before, body ++ after, htext, rfl⟩
    · refine isValid_iff_exists_append.mpr ⟨before ++ body, after, ?_, ?_⟩
      · rw [htext, List.append_assoc]
      · rw [byteLength_append]

/-- A text has the bytes of a range. -/
structure Reads (text : String) (start stop : Nat) (part : String) : Prop where
  isRange : IsRange text start stop
  bytes_eq : part.toByteArray = text.toByteArray.extract start stop

/-- The bytes between two cuts are those of the characters between them. -/
theorem toByteArray_extract_of_append {before body after : List Char}
    (h : text.toList = before ++ (body ++ after)) :
    text.toByteArray.extract (byteLength before) (byteLength before + byteLength body) =
      (String.ofList body).toByteArray := by
  have hsize (cs : List Char) : (String.ofList cs).toByteArray.size = byteLength cs := by
    rw [String.size_toByteArray, byteLength_eq_utf8ByteSize]
  rw [← String.ofList_toList (s := text), h, String.ofList_append, String.ofList_append,
    String.toByteArray_append, String.toByteArray_append, ByteArray.extract_append, hsize,
    Nat.sub_self, Nat.add_sub_cancel_left, ByteArray.extract_append_eq_left (hsize body).symm,
    ByteArray.extract_eq_empty_iff.mpr]
  · exact ByteArray.empty_append
  · rw [hsize]
    omega

/-- **What a range reads, in characters.** -/
theorem reads_iff_exists_append : Reads text start stop part ↔
    ∃ before after, text.toList = before ++ (part.toList ++ after) ∧
      start = byteLength before ∧ stop = byteLength before + size part := by
  constructor
  · rintro ⟨hrange, hbytes⟩
    obtain ⟨before, body, after, htext, rfl, rfl⟩ := isRange_iff_exists_append.mp hrange
    rw [toByteArray_extract_of_append htext, String.toByteArray_inj] at hbytes
    subst hbytes
    rw [size, String.toList_ofList]
    exact ⟨before, after, htext, rfl, rfl⟩
  · rintro ⟨before, after, htext, rfl, rfl⟩
    refine ⟨isRange_iff_exists_append.mpr ⟨before, _, after, htext, rfl, rfl⟩, ?_⟩
    rw [size, toByteArray_extract_of_append htext, String.ofList_toList]

/-- **A slice is found exactly between two boundaries**, and it has the bytes of the range. -/
theorem slice?_eq_some_iff :
    slice? start stop text.toList = some part.toList ↔ Reads text start stop part := by
  rw [reads_iff_exists_append]
  constructor
  · intro h
    unfold slice? at h
    split at h
    · rename_i hle
      obtain ⟨rest, hdrop, htake⟩ := Option.bind_eq_some_iff.mp h
      obtain ⟨before, htext, rfl⟩ := dropBytes?_eq_some_iff.mp hdrop
      obtain ⟨after, rfl, hlen⟩ := takeBytes?_eq_some_iff.mp htake
      refine ⟨before, after, htext, rfl, ?_⟩
      rw [size, ← hlen]
      omega
    · cases h
  · rintro ⟨before, after, htext, rfl, rfl⟩
    rw [htext, size, slice?_append]

/-- Every range reads some text. -/
theorem IsRange.exists_reads (h : IsRange text start stop) : ∃ part, Reads text start stop part := by
  obtain ⟨before, body, after, htext, hstart, hstop⟩ := isRange_iff_exists_append.mp h
  refine ⟨String.ofList body, reads_iff_exists_append.mpr ⟨before, after, ?_, hstart, ?_⟩⟩
  · rw [htext, String.toList_ofList]
  · rw [hstop, size, String.toList_ofList]

/-- A range reads one text. -/
theorem Reads.unique {part' : String} (h : Reads text start stop part)
    (h' : Reads text start stop part') : part = part' :=
  String.toByteArray_inj.mp (h.bytes_eq.trans h'.bytes_eq.symm)

/-- A range from the start of one range to the end of another. -/
theorem IsRange.join {start' stop' : Nat} (h : IsRange text start stop)
    (h' : IsRange text start' stop') (hle : start ≤ stop') : IsRange text start stop' :=
  ⟨hle, h'.stop_le_size, h.start_isValid, h'.stop_isValid⟩

/-- **A range inside of another one** is read from the text of the outer one. -/
theorem Reads.within {whole : String} {first last : Nat} (h : Reads text start stop part)
    (hw : Reads text first last whole) (hstart : first ≤ start) (hstop : stop ≤ last) :
    Reads whole (start - first) (stop - first) part := by
  rw [reads_iff_exists_append] at h hw ⊢
  obtain ⟨before, after, htext, rfl, rfl⟩ := h
  obtain ⟨front, back, htext', rfl, rfl⟩ := hw
  obtain ⟨gap, rfl, hwhole⟩ := exists_append_of_byteLength_le (htext' ▸ htext) hstart
  have hle : byteLength (gap ++ part.toList) ≤ byteLength whole.toList := by
    rw [byteLength_append] at hstop ⊢
    simp only [size] at hstop
    omega
  rw [← List.append_assoc] at hwhole
  obtain ⟨rest, hrest, -⟩ := exists_append_of_byteLength_le hwhole.symm hle
  refine ⟨gap, rest, ?_, ?_, ?_⟩
  · rw [hrest, List.append_assoc]
  · rw [byteLength_append]
    omega
  · rw [byteLength_append]
    omega

end SpacedNames.Text
