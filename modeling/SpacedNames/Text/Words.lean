import SpacedNames.Text.Characters

/-!
# Words and offsets

A name is a sequence of words. How the words are spaced does not tell two names apart.

* `words`: the maximal runs of characters that are not blank, in order.
* `joined`: texts put together with one space between neighbours.
* `normalize`: the words of a text, joined. Two texts have the same words exactly when they
  normalize to the same text.

Offsets and lengths of text count the bytes of its UTF-8 form. A cut is only possible between
two characters.

* `byteLength`: the number of bytes of a character list.
* `dropBytes?`, `takeBytes?`: what follows, and what precedes, a byte offset; `none` at an offset
  inside a character or past the end.
* `slice?`: the text between two offsets.
-/

namespace SpacedNames.Text

/-! ## Words -/

/-- The pieces between blank characters, one more than there are blank characters. Some may be
empty. -/
def pieces : List Char → List (List Char)
  | [] => [[]]
  | c :: cs =>
    if isBlank c then [] :: pieces cs
    else match pieces cs with
      | [] => [[c]]
      | p :: ps => (c :: p) :: ps

/-- The words of a character list: its pieces between blank characters, empty ones left out. -/
def wordsOf (cs : List Char) : List (List Char) :=
  (pieces cs).filter (· ≠ [])

/-- The character lists, one space between neighbours. -/
def spaced : List (List Char) → List Char
  | [] => []
  | [w] => w
  | w :: ws => w ++ ' ' :: spaced ws

/-- The words of a text, in order. -/
def words (text : String) : List String :=
  (wordsOf text.toList).map String.ofList

/-- The texts, one space between neighbours. -/
def joined (texts : List String) : String :=
  String.ofList (spaced (texts.map String.toList))

/-- The words of a text with one space between neighbours and none around them. -/
def normalize (text : String) : String :=
  String.ofList (spaced (wordsOf text.toList))

theorem normalize_eq_joined (text : String) : normalize text = joined (words text) := by
  simp [normalize, joined, words]

/-! ## Offsets in bytes -/

/-- Bytes of a character list in UTF-8. -/
def byteLength : List Char → Nat
  | [] => 0
  | c :: cs => c.utf8Size + byteLength cs

/-- What follows the first `n` bytes. -/
def dropBytes? : Nat → List Char → Option (List Char)
  | 0, cs => some cs
  | _ + 1, [] => none
  | n + 1, c :: cs => if c.utf8Size ≤ n + 1 then dropBytes? (n + 1 - c.utf8Size) cs else none

/-- The first `n` bytes. -/
def takeBytes? : Nat → List Char → Option (List Char)
  | 0, _ => some []
  | _ + 1, [] => none
  | n + 1, c :: cs =>
    if c.utf8Size ≤ n + 1 then (takeBytes? (n + 1 - c.utf8Size) cs).map (c :: ·) else none

/-- The bytes from offset `start` up to offset `stop`. -/
def slice? (start stop : Nat) (cs : List Char) : Option (List Char) :=
  if start ≤ stop then (dropBytes? start cs).bind (takeBytes? (stop - start)) else none

/-- Bytes of a text in UTF-8. -/
def size (text : String) : Nat :=
  byteLength text.toList

@[simp] theorem byteLength_nil : byteLength [] = 0 := rfl

@[simp] theorem byteLength_cons (c : Char) (cs : List Char) :
    byteLength (c :: cs) = c.utf8Size + byteLength cs := rfl

theorem byteLength_append (xs ys : List Char) :
    byteLength (xs ++ ys) = byteLength xs + byteLength ys := by
  induction xs with
  | nil => simp
  | cons c cs ih => simp [ih, Nat.add_assoc]

theorem byteLength_pos {cs : List Char} (h : cs ≠ []) : 0 < byteLength cs := by
  obtain ⟨c, cs, rfl⟩ := List.exists_cons_of_ne_nil h
  rw [byteLength_cons]
  have := c.utf8Size_pos
  omega

/-- Dropping the bytes of an initial part leaves the rest. -/
theorem dropBytes?_append (xs ys : List Char) :
    dropBytes? (byteLength xs) (xs ++ ys) = some ys := by
  induction xs with
  | nil => simp [dropBytes?]
  | cons c cs ih =>
    obtain ⟨n, hn⟩ : ∃ n, c.utf8Size + byteLength cs = n + 1 :=
      ⟨c.utf8Size + byteLength cs - 1, by have := c.utf8Size_pos; omega⟩
    rw [byteLength_cons, List.cons_append, hn, dropBytes?, if_pos (by omega),
      show n + 1 - c.utf8Size = byteLength cs by omega, ih]

/-- Taking the bytes of an initial part gives that part. -/
theorem takeBytes?_append (xs ys : List Char) :
    takeBytes? (byteLength xs) (xs ++ ys) = some xs := by
  induction xs with
  | nil => simp [takeBytes?]
  | cons c cs ih =>
    obtain ⟨n, hn⟩ : ∃ n, c.utf8Size + byteLength cs = n + 1 :=
      ⟨c.utf8Size + byteLength cs - 1, by have := c.utf8Size_pos; omega⟩
    rw [byteLength_cons, List.cons_append, hn, takeBytes?, if_pos (by omega),
      show n + 1 - c.utf8Size = byteLength cs by omega, ih]
    rfl

/-- What stands between two cuts. -/
theorem slice?_append (before body after : List Char) :
    slice? (byteLength before) (byteLength before + byteLength body) (before ++ (body ++ after)) =
      some body := by
  rw [slice?, if_pos (Nat.le_add_right _ _), dropBytes?_append, Option.bind_some,
    Nat.add_sub_cancel_left, takeBytes?_append]

theorem byteLength_reverse (cs : List Char) : byteLength cs.reverse = byteLength cs := by
  induction cs with
  | nil => rfl
  | cons c cs ih =>
    rw [List.reverse_cons, byteLength_append, ih, byteLength_cons, byteLength_cons, byteLength_nil]
    omega

end SpacedNames.Text
