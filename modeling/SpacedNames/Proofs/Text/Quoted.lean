import Mathlib.Tactic.SplitIfs
import SpacedNames.Proofs.Text.Words

/-!
# Lines and quoted texts

Text between quotation marks may hold whatever it likes: marks, backslashes, what looks like an
escape or like the end of a line. It is told from what follows all the same.

* `InLines`: a text as lines, with a line end after each of them. There are as many lines as line
  ends (`InLines.length_eq`), and only one way to tell them apart (`InLines.unique`).
* `ended`: entries with a line end after each. They are always in lines (`exists_inLines_ended`),
  but an entry that holds a line end itself is several of them (`inLines_ended_iff`).
* `newline_not_mem_quoted`: a text between quotation marks holds no line end, whatever it is.
* `SelfDelimiting`: a way to write things that shows where each of them ends. A number does so with a
  space behind it.
* `unescape?`: reads one character back. `unescape?_escape` holds whatever follows the character, so
  characters are self-delimiting (`selfDelimiting_escape`).
* `selfDelimiting_quoted`: hence so are quoted texts.
-/

namespace SpacedNames.Text

/-! ## Lines -/

/-- The text is these lines, with a line end after each. -/
structure InLines (text : List Char) (lines : List (List Char)) : Prop where
  text_eq : text = lines.flatMap (· ++ ['\n'])
  whole : ∀ line ∈ lines, '\n' ∉ line

/-- The entries with a line end after each. -/
def ended (entries : List (List Char)) : List Char :=
  entries.flatMap (· ++ ['\n'])

theorem ended_cons (entry : List Char) (rest : List (List Char)) :
    ended (entry :: rest) = entry ++ ['\n'] ++ ended rest := rfl

/-- The line ends are those after the entries and those inside them. -/
theorem count_ended (entries : List (List Char)) :
    (ended entries).count '\n' = entries.length + entries.flatten.count '\n' := by
  induction entries with
  | nil => rfl
  | cons entry rest ih =>
    rw [ended_cons, List.count_append, List.count_append, List.count_singleton_self, ih,
      List.length_cons, List.flatten_cons, List.count_append]
    omega

/-- A separator without line ends adds none. -/
theorem count_intercalate {sep : List Char} (h : '\n' ∉ sep) (entries : List (List Char)) :
    (sep.intercalate entries).count '\n' = entries.flatten.count '\n' := by
  induction entries with
  | nil => rfl
  | cons entry rest ih =>
    cases rest with
    | nil => simp
    | cons next rest =>
      rw [List.intercalate_cons_cons, List.count_append, List.count_append, ih,
        List.count_eq_zero_of_not_mem h, Nat.add_zero]
      exact List.count_append.symm

/-- **There are as many lines as line ends.** -/
theorem InLines.length_eq {text : List Char} {lines : List (List Char)} (h : InLines text lines) :
    lines.length = text.count '\n' := by
  have hwhole : lines.flatten.count '\n' = 0 := by
    simpa [List.count_eq_zero] using h.whole
  have hcount := count_ended lines
  rw [hwhole, Nat.add_zero] at hcount
  rw [h.text_eq]
  exact hcount.symm

/-- The lines are the pieces between line ends; behind the last one there is an empty piece. -/
theorem InLines.splitOn_eq {text : List Char} {lines : List (List Char)} (h : InLines text lines) :
    text.splitOn '\n' = lines ++ [[]] := by
  obtain ⟨rfl, hwhole⟩ := h
  induction lines with
  | nil => rfl
  | cons line lines ih =>
    obtain ⟨hline, hlines⟩ := List.forall_mem_cons.mp hwhole
    rw [List.flatMap_cons, List.append_assoc, List.singleton_append,
      List.splitOn_append_cons_self_of_not_mem hline, ih hlines]
    rfl

/-- **A text is in lines in one way only.** -/
theorem InLines.unique {text : List Char} {lines lines' : List (List Char)}
    (h : InLines text lines) (h' : InLines text lines') : lines = lines' :=
  List.append_cancel_right (h.splitOn_eq.symm.trans h'.splitOn_eq)

theorem InLines.append {xs ys : List Char} {lines more : List (List Char)} (h : InLines xs lines)
    (h' : InLines ys more) : InLines (xs ++ ys) (lines ++ more) where
  text_eq := by rw [List.flatMap_append, ← h.text_eq, ← h'.text_eq]
  whole line hl := (List.mem_append.mp hl).elim (h.whole line) (h'.whole line)

/-- One entry with a line end after it is one line or, if it holds line ends, several. -/
theorem exists_inLines_append_newline (entry : List Char) :
    ∃ lines, InLines (entry ++ ['\n']) lines := by
  induction entry with
  | nil => exact ⟨[[]], rfl, by simp⟩
  | cons c entry ih =>
    obtain ⟨lines, h⟩ := ih
    by_cases hc : c = '\n'
    · subst hc
      exact ⟨[] :: lines, congrArg _ h.text_eq, by simpa using h.whole⟩
    · -- The character goes to the front of the first line, and there is one.
      obtain ⟨line, rest, rfl⟩ : ∃ line rest, lines = line :: rest :=
        List.exists_cons_of_ne_nil fun hn => by simpa [hn] using h.text_eq
      refine ⟨(c :: line) :: rest, congrArg (c :: ·) h.text_eq, ?_⟩
      obtain ⟨hline, hrest⟩ := List.forall_mem_cons.mp h.whole
      exact List.forall_mem_cons.mpr ⟨by simp [hline, Ne.symm hc], hrest⟩

theorem exists_inLines_ended (entries : List (List Char)) :
    ∃ lines, InLines (ended entries) lines := by
  induction entries with
  | nil => exact ⟨[], rfl, by simp⟩
  | cons entry rest ih =>
    obtain ⟨first, hf⟩ := exists_inLines_append_newline entry
    obtain ⟨lines, hl⟩ := ih
    exact ⟨first ++ lines, hf.append hl⟩

/-- **Each entry is one line** exactly if none of them holds a line end. -/
theorem inLines_ended_iff {entries : List (List Char)} :
    InLines (ended entries) entries ↔ '\n' ∉ entries.flatten := by
  refine ⟨fun h hm => ?_, fun h => ⟨rfl, fun entry he hc => ?_⟩⟩
  · obtain ⟨entry, he, hc⟩ := List.mem_flatten.mp hm
    exact h.whole entry he hc
  · exact h (List.mem_flatten.mpr ⟨entry, he, hc⟩)

/-! ### What holds no line end -/

/-- A text that is put into another one stands there as it is. -/
@[simp] theorem toString_string (text : String) : toString text = text := rfl

/-- A digit is one of a few characters, in every base. -/
theorem exists_digitChar_of_mem_toDigits {b n : Nat} {c : Char} (hb : 1 < b)
    (h : c ∈ Nat.toDigits b n) : ∃ d, c = Nat.digitChar d := by
  induction n using Nat.strongRecOn with
  | ind n ih =>
    by_cases hn : n < b
    · rw [Nat.toDigits_of_lt_base hn, List.mem_singleton] at h
      exact ⟨n, h⟩
    · have hle := Nat.le_of_not_lt hn
      rw [Nat.toDigits_of_base_le hb hle, List.mem_append, List.mem_singleton] at h
      rcases h with h | h
      · exact ih _ (Nat.div_lt_self (by omega) hb) h
      · exact ⟨_, h⟩

/-- Whatever is no digit in any base stands in no number. -/
theorem not_mem_toDigits {b : Nat} {c : Char} (hb : 1 < b) (hc : ∀ d, Nat.digitChar d ≠ c) (n : Nat) :
    c ∉ Nat.toDigits b n := by
  intro h
  obtain ⟨d, hd⟩ := exists_digitChar_of_mem_toDigits hb h
  exact hc d hd.symm

theorem newline_not_mem_toDigits {b : Nat} (hb : 1 < b) (n : Nat) : '\n' ∉ Nat.toDigits b n :=
  not_mem_toDigits hb (fun _ => Nat.digitChar_ne '\n' (by decide)) n

/-- A line end is one of the characters that are escaped, and no escape is written with one. -/
theorem newline_not_mem_escape (c : Char) : '\n' ∉ escape c := by
  unfold escape
  split_ifs with hq hb hn hr ht hz hnum
  -- The six escapes that are one character after a backslash.
  iterate 6 decide
  · simp [numbered, newline_not_mem_toDigits]
  · simpa using Ne.symm hn

/-- **Whatever stands between quotation marks stays on its line.** -/
theorem newline_not_mem_quoted (text : String) : '\n' ∉ (quoted text).toList := by
  simp [quoted, newline_not_mem_escape]

/-! ## Texts that show where they end -/

/-- At the front of a longer text, what is written tells both what it is and where it ends. -/
def SelfDelimiting {α : Type} (write : α → List Char) : Prop :=
  ∀ a b xs ys, write a ++ xs = write b ++ ys → a = b ∧ xs = ys

/-- What can be read back, whatever follows it, shows where it ends. -/
theorem SelfDelimiting.of_read {α : Type} {write : α → List Char}
    {read : List Char → Option (α × List Char)}
    (h : ∀ a xs, read (write a ++ xs) = some (a, xs)) : SelfDelimiting write := by
  intro a b xs ys hw
  have hread := h a xs
  rw [hw, h b ys] at hread
  obtain ⟨hb, hy⟩ := Prod.mk.inj (Option.some.inj hread)
  exact ⟨hb.symm, hy.symm⟩

/-! ### Numbers -/

/-- What stands before the first of a character. -/
theorem takeWhile_append_cons {c : Char} {xs : List Char} (h : c ∉ xs) (ys : List Char) :
    (xs ++ c :: ys).takeWhile (· != c) = xs :=
  takeWhile_append_of_head (fun _ hd => bne_iff_ne.mpr (ne_of_mem_of_not_mem hd h)) (by simp)

/-- Reads the digits up to a space. Gives the number and what follows the space. -/
def readNumber? (cs : List Char) : Option (Nat × List Char) :=
  let digits := cs.takeWhile (· != ' ')
  some (Nat.ofDigitChars 10 digits 0, cs.drop (digits.length + 1))

/-- A number ends where a space follows. -/
theorem selfDelimiting_number : SelfDelimiting fun n : Nat => Nat.toDigits 10 n ++ [' '] := by
  refine .of_read fun n xs => (?_ : readNumber? _ = _)
  have hspace : ' ' ∉ Nat.toDigits 10 n :=
    not_mem_toDigits (by decide) (fun _ => Nat.digitChar_ne _ (by decide)) n
  simp [readNumber?, takeWhile_append_cons hspace, Nat.ofDigitChars_ten_toDigits]

theorem digitValue_digitChar {d : Nat} (h : d < 16) : digitValue (Nat.digitChar d) = d := by
  have hall : ∀ d < 16, digitValue (Nat.digitChar d) = d := by decide
  exact hall d h

/-- A number is told by its digits in any base up to sixteen. -/
theorem digitsValue_toDigits {base : Nat} (hbase : 1 < base) (hle : base ≤ 16) (n : Nat) :
    digitsValue base (Nat.toDigits base n) = n := by
  induction n using Nat.strongRecOn with
  | ind n ih =>
    by_cases hn : n < base
    · rw [Nat.toDigits_of_lt_base hn]
      simp [digitsValue, digitValue_digitChar (Nat.lt_of_lt_of_le hn hle)]
    · have hlarge : base ≤ n := Nat.le_of_not_lt hn
      have hfront := ih (n / base) (Nat.div_lt_self (by omega) hbase)
      have hdigit : n % base < 16 := Nat.lt_of_lt_of_le (Nat.mod_lt n (by omega)) hle
      rw [digitsValue] at hfront
      rw [Nat.toDigits_of_base_le hbase hlarge, digitsValue, List.foldl_append, hfront]
      simp only [List.foldl_cons, List.foldl_nil, digitValue_digitChar hdigit]
      exact Nat.div_add_mod' n base

/-! ### Characters -/

/-- The character that is written as a backslash and this letter. -/
def letterChar : Char → Char
  | 'n' => '\n'
  | 'r' => '\r'
  | 't' => '\t'
  | '0' => '\x00'
  | c => c

/-- Reads one character as `escape` writes it. Gives it and what follows. -/
def unescape? : List Char → Option (Char × List Char)
  | [] => none
  | '\\' :: 'u' :: rest =>
    let digits := rest.tail.takeWhile (· != '\x7d')
    some (Char.ofNat (digitsValue 16 digits), rest.drop (digits.length + 2))
  | '\\' :: letter :: rest => some (letterChar letter, rest)
  | c :: rest => some (c, rest)

theorem unescape?_numbered (c : Char) (rest : List Char) :
    unescape? (numbered c ++ rest) = some (c, rest) := by
  have hbrace : '\x7d' ∉ Nat.toDigits 16 c.toNat :=
    not_mem_toDigits (by decide) (fun _ => Nat.digitChar_ne _ (by decide)) _
  simp [numbered, unescape?, takeWhile_append_cons hbrace, digitsValue_toDigits]

/-- **A character is read back**, whatever follows it. -/
theorem unescape?_escape (c : Char) (rest : List Char) :
    unescape? (escape c ++ rest) = some (c, rest) := by
  unfold escape
  split_ifs with hq hb hn hr ht hz hnum
  -- The six that are written as a backslash and a letter.
  iterate 6 subst c; rfl
  · exact unescape?_numbered c rest
  · simp [unescape?, hb]

theorem selfDelimiting_escape : SelfDelimiting escape :=
  .of_read unescape?_escape

/-! ### Quoted texts -/

/-- No character is written with a quotation mark in front. -/
theorem escape_ne_quote (c : Char) (xs ys : List Char) : escape c ++ xs ≠ '"' :: ys := by
  intro h
  have hread := unescape?_escape c xs
  rw [h] at hread
  obtain ⟨rfl, -⟩ := Prod.mk.inj (Option.some.inj hread)
  simp [escape] at h

/-- The first bare quotation mark is the end of the text. -/
theorem flatMap_escape_inj {cs ds xs ys : List Char}
    (h : cs.flatMap escape ++ '"' :: xs = ds.flatMap escape ++ '"' :: ys) : cs = ds ∧ xs = ys := by
  induction cs generalizing ds with
  | nil =>
    cases ds with
    | nil => exact ⟨rfl, List.tail_eq_of_cons_eq h⟩
    | cons d ds =>
      rw [List.flatMap_cons, List.append_assoc] at h
      exact absurd h.symm (escape_ne_quote d _ _)
  | cons c cs ih =>
    cases ds with
    | nil =>
      rw [List.flatMap_cons, List.append_assoc] at h
      exact absurd h (escape_ne_quote c _ _)
    | cons d ds =>
      rw [List.flatMap_cons, List.flatMap_cons, List.append_assoc, List.append_assoc] at h
      obtain ⟨rfl, hrest⟩ := selfDelimiting_escape _ _ _ _ h
      obtain ⟨rfl, rfl⟩ := ih hrest
      exact ⟨rfl, rfl⟩

/-- **A quoted text shows where it ends**, whatever it holds and whatever follows. -/
theorem selfDelimiting_quoted : SelfDelimiting fun text => (quoted text).toList := by
  intro a b xs ys h
  simp only [quoted, String.toList_ofList, List.cons_append, List.append_assoc,
    List.cons.injEq, true_and] at h
  obtain ⟨hab, rfl⟩ := flatMap_escape_inj h
  exact ⟨String.toList_injective hab, rfl⟩

end SpacedNames.Text
