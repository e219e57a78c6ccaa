import Mathlib.Data.List.Infix
import SpacedNames.Toml.Document

/-!
# What readers leave

Places in a document are counted from the end of the text, so they can be compared as soon as a reader
is known to leave an end of what it was given.

* `Reader.Advances`: a reader leaves an end of its text. The parts from which readers are made keep this,
  and the instances carry it through the grammar up to `value` and `entry`.
* `keyPart_mark`, `path_cons`: where the keys that are read stand.
-/

namespace SpacedNames.Toml

open Reader

variable {α β : Type} {r r' : Reader α} {f : α → Reader β} {cs rest : List Char}

namespace Reader

/-! ## Parts of readers -/

theorem bind_eq_some_iff {b : β} :
    (r >>= f) cs = some (b, rest) ↔ ∃ a mid, r cs = some (a, mid) ∧ f a mid = some (b, rest) := by
  show (r cs).bind _ = _ ↔ _
  rw [Option.bind_eq_some_iff]
  exact Prod.exists

theorem pure_eq_some_iff {a x : α} : (pure x : Reader α) cs = some (a, rest) ↔ x = a ∧ cs = rest := by
  show some (x, cs) = _ ↔ _
  rw [Option.some.injEq, Prod.mk.injEq]

theorem orElse_eq_some {x : α} (h : (r <|> r') cs = some (x, rest)) :
    r cs = some (x, rest) ∨ r' cs = some (x, rest) := by
  change (r cs <|> r' cs) = _ at h
  cases hr : r cs with
  | none => rw [hr] at h; exact .inr h
  | some y => rw [hr] at h; exact .inl h

theorem satisfy_eq_some {p : Char → Bool} {c : Char} (h : satisfy p cs = some (c, rest)) :
    p c ∧ cs = c :: rest := by
  unfold satisfy at h
  split at h
  · cases h
  · split at h
    · cases h
      exact ⟨‹_›, rfl⟩
    · cases h

theorem char_eq_some {c : Char} {u : Unit} (h : char c cs = some (u, rest)) : cs = c :: rest := by
  unfold char at h
  change (satisfy (· == c) >>= fun _ => pure ()) cs = _ at h
  obtain ⟨d, mid, hd, hmid⟩ := bind_eq_some_iff.mp h
  obtain ⟨hdc, rfl⟩ := satisfy_eq_some hd
  obtain ⟨-, rfl⟩ := pure_eq_some_iff.mp hmid
  rw [eq_of_beq hdc]

/-- A character is taken. -/
theorem char_length_lt {c : Char} {u : Unit} (h : char c cs = some (u, rest)) :
    rest.length < cs.length := by
  rw [char_eq_some h]
  exact Nat.lt_succ_self _

/-! ## Readers that advance -/

/-- What the reader leaves is an end of the text that it was given. -/
class Advances (r : Reader α) : Prop where
  suffix : ∀ {cs x rest}, r cs = some (x, rest) → rest <:+ cs

/-- The text does not get longer. -/
theorem Advances.length_le [Advances r] {x : α} (h : r cs = some (x, rest)) :
    rest.length ≤ cs.length :=
  (Advances.suffix h).length_le

theorem Advances.bind (hr : Advances r) (hf : ∀ a, Advances (f a)) : Advances (r >>= f) where
  suffix h := by
    obtain ⟨a, mid, ha, hb⟩ := bind_eq_some_iff.mp h
    exact ((hf a).suffix hb).trans (hr.suffix ha)

instance [hr : Advances r] [hf : ∀ a, Advances (f a)] : Advances (r >>= f) := hr.bind hf

instance (x : α) : Advances (pure x) where
  suffix h := (pure_eq_some_iff.mp h).2 ▸ List.suffix_rfl

instance : Advances (failure : Reader α) where
  suffix h := nomatch h

instance [Advances r] [Advances r'] : Advances (r <|> r') where
  suffix h := (orElse_eq_some h).elim Advances.suffix Advances.suffix

instance {r' : Reader β} [Advances r] [Advances r'] : Advances (r *> r') := by
  rw [seqRight_eq_bind]
  infer_instance

instance {g : α → β} [Advances r] : Advances (g <$> r) := by
  rw [map_eq_pure_bind]
  infer_instance

instance [Advances r] : Advances (discard r) :=
  inferInstanceAs (Advances (_ <$> r))

instance {p : Prop} [Decidable p] [Advances r] [Advances r'] : Advances (if p then r else r') := by
  split <;> infer_instance

instance (p : Char → Bool) : Advances (satisfy p) where
  suffix h := (satisfy_eq_some h).2 ▸ List.suffix_cons _ _

instance : Advances mark where
  suffix h := by cases h; exact List.suffix_rfl

instance : Advances next where
  suffix h := by cases h; exact List.suffix_rfl

instance : Advances atEnd where
  suffix {cs x rest} h := by
    cases cs with
    | nil => cases h; exact List.suffix_rfl
    | cons c cs => cases h

/-- Characters of a kind are left out, as many as there are. -/
theorem advances_dropWhile (p : Char → Bool) :
    Advances (fun cs => some ((), cs.dropWhile p) : Reader Unit) where
  suffix h := by cases h; exact List.dropWhile_suffix p

instance (c : Char) : Advances (char c) := by unfold char; infer_instance

instance (c : Char) : Advances (notNext c) := by unfold notNext; infer_instance

instance (cs : List Char) : Advances (exactly cs) := by
  induction cs with
  | nil => unfold exactly; infer_instance
  | cons c cs ih => unfold exactly; infer_instance

instance [Advances r] : Advances (maybe r) := by unfold maybe; infer_instance

instance [Advances r] (n : Nat) : Advances (upTo r n) := by
  induction n with
  | zero => unfold upTo; infer_instance
  | succ n ih => unfold upTo; infer_instance

instance [Advances r] : Advances (many r) := by unfold many; infer_instance

instance [Advances r] : Advances (several r) := by unfold several; infer_instance

end Reader

/-! ## The grammar -/

instance : Advances blanks := advances_dropWhile isGap

instance : Advances comment := .bind inferInstance fun _ => advances_dropWhile isPlain

instance : Advances newlineOrEnd := by unfold newlineOrEnd; infer_instance

instance : Advances lineEnd := by unfold lineEnd; infer_instance

instance : Advances blankLines := by unfold blankLines; infer_instance

section Quotation

instance [Advances r] (n : Nat) : Advances (times r n) := by
  induction n with
  | zero => unfold times; infer_instance
  | succ n ih => unfold times; infer_instance

instance (digits : Nat) : Advances (numberedChar digits) := by
  refine .bind inferInstance fun ds => ?_
  split <;> infer_instance

instance : Advances escapedChar := by
  refine .bind inferInstance fun _ => .bind inferInstance fun c => ?_
  split <;> infer_instance

instance : Advances basicLine := by unfold basicLine; infer_instance

instance : Advances literalLine := by unfold literalLine; infer_instance

instance (c : Char) : Advances (innerMarks c) := by unfold innerMarks; infer_instance

instance (c : Char) : Advances (lastMarks c) := by unfold lastMarks; infer_instance

instance : Advances continuation := by unfold continuation; infer_instance

instance (c : Char) (piece : Reader (List Char)) [Advances piece] : Advances (lines c piece) := by
  unfold lines; infer_instance

instance : Advances basicLines := by unfold basicLines; infer_instance

instance : Advances literalLines := by unfold literalLines; infer_instance

instance : Advances anyText := by unfold anyText; infer_instance

end Quotation

section Number

instance : Advances sign := by unfold sign; infer_instance

instance (isDigit : Char → Bool) : Advances (digitRun isDigit) := by unfold digitRun; infer_instance

instance : Advances wholePart := by unfold wholePart; infer_instance

instance (c : Char) (base : Nat) (isDigit : Char → Bool) :
    Advances (basedInteger c base isDigit) := by
  unfold basedInteger; infer_instance

instance : Advances decimalInteger := by unfold decimalInteger; infer_instance

instance : Advances integer := by unfold integer; infer_instance

instance : Advances exponent := by unfold exponent; infer_instance

instance : Advances fraction := by unfold fraction; infer_instance

instance : Advances decimal := by unfold decimal; infer_instance

instance : Advances special := by unfold special; infer_instance

instance : Advances floating := by unfold floating; infer_instance

end Number

section DateTime

instance (digits : Nat) : Advances (fixedNumber digits) := by unfold fixedNumber; infer_instance

instance (low high : Nat) : Advances (pair low high) := by unfold pair; infer_instance

instance : Advances date := by unfold date; infer_instance

instance : Advances time :=
  .bind inferInstance fun _ => .bind inferInstance fun _ => .bind inferInstance fun _ =>
    inferInstance

instance : Advances offset := by unfold offset; infer_instance

instance : Advances timeOfDate := by unfold timeOfDate; infer_instance

instance : Advances dateTime := by unfold dateTime; infer_instance

end DateTime

section Value

instance : Advances keyPart := by unfold keyPart; infer_instance

instance : Advances path := by unfold path; infer_instance

instance : Advances boolean := by unfold boolean; infer_instance

instance : Advances scalar := by unfold scalar; infer_instance

variable {item : Reader Node} [Advances item]

instance : Advances (entry item) := by unfold entry; infer_instance

instance (fuel : Nat) : Advances (items item fuel) := by
  induction fuel with
  | zero => unfold items; infer_instance
  | succ fuel ih => unfold items; infer_instance

instance : Advances (array item) := by unfold array; infer_instance

instance (fuel : Nat) : Advances (members item fuel) := by
  induction fuel with
  | zero => unfold members; infer_instance
  | succ fuel ih => unfold members; infer_instance

instance : Advances (braced item) := by
  refine .bind inferInstance fun _ => .bind inferInstance fun _ => .bind inferInstance fun _ =>
    .bind inferInstance fun xs => ?_
  split <;> infer_instance

instance (depth : Nat) : Advances (valueWithin depth) := by
  induction depth with
  | zero => unfold valueWithin; infer_instance
  | succ depth ih => unfold valueWithin; infer_instance

instance : Advances value := by unfold value; infer_instance

end Value

/-! ## Where keys stand -/

/-- A part of a key stands where it is read. -/
theorem keyPart_mark {key : Key} (h : keyPart cs = some (key, rest)) :
    rest.length ≤ key.mark ∧ key.mark ≤ cs.length := by
  unfold keyPart at h
  obtain ⟨_, start, hblanks, h⟩ := bind_eq_some_iff.mp h
  obtain ⟨_, _, hmark, h⟩ := bind_eq_some_iff.mp h
  obtain ⟨name, stop, hname, h⟩ := bind_eq_some_iff.mp h
  obtain ⟨_, last, hlast, h⟩ := bind_eq_some_iff.mp h
  obtain ⟨rfl, rfl⟩ := pure_eq_some_iff.mp h
  cases hmark
  exact ⟨(Advances.length_le hlast).trans (Advances.length_le hname), Advances.length_le hblanks⟩

/-- A key has a first part, which stands where the key is read. -/
theorem path_cons {keys : List Key} (h : path cs = some (keys, rest)) :
    ∃ key more, keys = key :: more ∧ rest.length ≤ key.mark ∧ key.mark ≤ cs.length := by
  unfold path at h
  obtain ⟨key, _, hkey, h⟩ := bind_eq_some_iff.mp h
  obtain ⟨more, stop, hmore, h⟩ := bind_eq_some_iff.mp h
  split at h
  · obtain ⟨rfl, rfl⟩ := pure_eq_some_iff.mp h
    obtain ⟨hlow, hhigh⟩ := keyPart_mark hkey
    exact ⟨key, more, rfl, (Advances.length_le hmore).trans hlow, hhigh⟩
  · cases h

end SpacedNames.Toml
