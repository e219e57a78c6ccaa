/-!
# Floating-point numbers

* `Binary`: the finite numbers m · 2^q of the 64-bit format, the two infinities, and "not a
  number".
* `Binary.ofDecimal`: the number nearest to a decimal; a tie goes to the even neighbour.
* `shortest`: the decimal with the fewest digits that rounds to a number, and among those the
  nearest one; of two equally near ones the greater.
* `Binary.text`: the number written out with a decimal point and no exponent, however long.

All arithmetic is exact, on natural numbers.
-/

namespace SpacedNames.Decimal

/-! ## The nearest number -/

/-- A number of the 64-bit binary format. A finite one has the size m · 2^q, where m is below
2^53 and q between -1074 and 971; zero is finite. -/
inductive Binary where
  | finite (negative : Bool) (m : Nat) (q : Int)
  | infinite (negative : Bool)
  | nan
  deriving DecidableEq, Repr, Inhabited

/-- The quotient rounded to the nearest natural number, a tie to the even one. -/
def roundQuotient (num den : Nat) : Nat :=
  let low := num / den
  let twice := 2 * (num % den)
  if twice < den then low
  else if den < twice then low + 1
  else if low % 2 = 0 then low else low + 1

/-- Numerator and denominator of n · b^e. -/
def power (n b : Nat) (e : Int) : Nat × Nat :=
  if 0 ≤ e then (n * b.pow e.toNat, 1) else (n, b.pow (-e).toNat)

/-- The greatest k with 2^k ≤ num / den, for positive numbers. -/
def floorLog2 (num den : Nat) : Int :=
  let guess : Int := (Nat.log2 num : Int) - Nat.log2 den
  let (scaled, one) := power den 2 guess
  if scaled ≤ num * one then guess else guess - 1

/-- Decimals with their first digit above this place round to an infinity. -/
def highestPlace : Int := 310

/-- Decimals with their first digit below this place round to zero. -/
def lowestPlace : Int := -330

namespace Binary

/-- The number nearest to num / den. -/
def ofQuotient (negative : Bool) (num den : Nat) : Binary :=
  let q := max (floorLog2 num den - 52) (-1074)
  let (scale, one) := power den 2 q
  let m := roundQuotient (num * one) scale
  let (m, q) := if m = Nat.pow 2 53 then (Nat.pow 2 52, q + 1) else (m, q)
  if 971 < q then .infinite negative else .finite negative m q

/-- The number nearest to n · 10^e. -/
def ofDecimal (negative : Bool) (n : Nat) (e : Int) : Binary :=
  let place := e + (Nat.toDigits 10 n).length
  if n = 0 then .finite negative 0 (-1074)
  else if highestPlace < place then .infinite negative
  else if place < lowestPlace then .finite negative 0 (-1074)
  else
    let (num, den) := power n 10 e
    ofQuotient negative num den

end Binary

/-! ## The shortest decimal -/

/-- The order of a · 10^e and b · 2^f. -/
def compareScaled (a : Nat) (e : Int) (b : Nat) (f : Int) : Ordering :=
  let (left, under) := power a 10 e
  let (right, below) := power b 2 f
  compare (left * below) (right * under)

/-- Does d · 10^p round to m · 2^q? The numbers that do lie between the points halfway to the two
neighbours; these points belong to them if m is even. Below a power of two the neighbour is half
as far away. -/
def roundsTo (m : Nat) (q : Int) (d : Nat) (p : Int) : Bool :=
  let half := if m = Nat.pow 2 52 ∧ -1074 < q then 1 else 2
  let low := compareScaled d p (4 * m - half) (q - 2)
  let high := compareScaled d p (4 * m + 2) (q - 2)
  let even := m % 2 == 0
  (low == .gt || (even && low == .eq)) && (high == .lt || (even && high == .eq))

/-- The multiple of 10^p that is nearest to m · 2^q among those that round to it, if one does. -/
def nearestOnGrid (m : Nat) (q p : Int) : Option (Nat × Int) :=
  let (num, one) := power m 2 q
  let (grid, under) := power one 10 p
  let low := num * under / grid
  let nearerLow := decide (2 * (num * under % grid) < grid)
  match roundsTo m q low p, roundsTo m q (low + 1) p with
  | true, true => some (if nearerLow then low else low + 1, p)
  | true, false => some (low, p)
  | false, true => some (low + 1, p)
  | false, false => none

/-- The first grid from 10^p on downwards, among so many, with a hit. -/
def firstHit (m : Nat) (q : Int) : Nat → Int → Option (Nat × Int)
  | 0, _ => none
  | n + 1, p =>
    match nearestOnGrid m q p with
    | some hit => some hit
    | none => firstHit m q n (p - 1)

/-- The decimal that equals m · 2^q. -/
def exactDecimal (m : Nat) (q : Int) : Nat × Int :=
  if 0 ≤ q then (m * Nat.pow 2 q.toNat, 0) else (m * Nat.pow 5 (-q).toNat, q)

/-- The digits and the exponent of the shortest decimal for m · 2^q. The first grid is coarser
than the number is great; seventeen digits are enough for every number. -/
def shortest (m : Nat) (q : Int) : Nat × Int :=
  let (num, den) := power m 2 q
  let place : Int := (Nat.toDigits 10 num).length - (Nat.toDigits 10 den).length + 1
  (firstHit m q 20 place).getD (exactDecimal m q)

/-- The digits of d · 10^p around a decimal point, at least one on each side. -/
def positional (d : Nat) (p : Int) : List Char :=
  let digits := Nat.toDigits 10 d
  if 0 ≤ p then digits ++ List.replicate p.toNat '0' ++ ['.', '0']
  else
    let places := (-p).toNat
    let padded := List.replicate (places + 1 - digits.length) '0' ++ digits
    padded.take (padded.length - places) ++ '.' :: padded.drop (padded.length - places)

/-- The number in digits. -/
def Binary.text : Binary → String
  | .nan => "NaN"
  | .infinite negative => if negative then "-inf" else "inf"
  | .finite negative m q =>
    let (d, p) := if m = 0 then (0, 0) else shortest m q
    String.ofList ((if negative then ['-'] else []) ++ positional d p)

end SpacedNames.Decimal
