/-!
# Finite 64-bit floating-point numbers and their decimals

A number is its sign and its rank: the place of its magnitude among the magnitudes of all such
numbers, counted from zero. Each magnitude is a whole multiple of `2 ^ (-1074)`, so products,
quotients and rounding are exact arithmetic on natural numbers.
-/

namespace ServiceSchema.Decimal

/-- The number of ranks between a power of two and the next. -/
def binade : Nat := Nat.pow 2 52

def rankBound : Nat := 2047 * binade

structure Binary64 where
  negative : Bool
  rank : Nat
  finite : rank < rankBound
deriving DecidableEq

namespace Binary64

/-- The magnitude of a rank in units of `2 ^ (-1074)`. -/
def unitsOfRank (r : Nat) : Nat :=
  if r < binade then r else (binade + r % binade) * Nat.pow 2 (r / binade - 1)

def unitsPerOne : Nat := Nat.pow 2 1074

def units (x : Binary64) : Nat :=
  unitsOfRank x.rank

def isZero (x : Binary64) : Bool :=
  x.rank == 0

/-- The whole number nearest to `num / den`, an even one at a tie. -/
def roundDiv (num den : Nat) : Nat :=
  let q := num / den
  let r := num % den
  if 2 * r < den then q
  else if den < 2 * r then q + 1
  else q + q % 2

/-- The rank nearest to `num / den` units, an even one at a tie. -/
def rankOfRatio (num den : Nat) : Nat :=
  let scale := (num / den).log2 - 52
  scale * binade + roundDiv num (den * Nat.pow 2 scale)

def ofRatio (negative : Bool) (num den : Nat) : Option Binary64 :=
  if h : rankOfRatio num den < rankBound then some ⟨negative, rankOfRatio num den, h⟩ else none

def zero (negative : Bool) : Binary64 :=
  ⟨negative, 0, by decide⟩

def ofNat? (n : Nat) : Option Binary64 :=
  ofRatio false (n * unitsPerOne) 1

def tenPow? (e : Nat) : Option Binary64 :=
  ofNat? (Nat.pow 10 e)

def mul? (x y : Binary64) : Option Binary64 :=
  ofRatio false (x.units * y.units) unitsPerOne

def div? (x y : Binary64) : Option Binary64 :=
  ofRatio false (x.units * unitsPerOne) y.units

def withSign (negative : Bool) (x : Binary64) : Binary64 :=
  { x with negative := negative }

end Binary64

/-!
## Shortest decimal form

The decimal with the fewest digits that reads back as a given number, and of those the nearest one.
Decimals of `n` digits form a grid; if a point of the grid reads back, so does one of the two
neighbours of the number on it, so only these are tried.
-/

/-- A positive decimal: `digits` without trailing zeros, the first of them worth
`10 ^ exponent`. -/
structure Form where
  digits : List Char
  exponent : Int
deriving DecidableEq

def digitCount (n : Nat) : Nat :=
  (Nat.toDigits 10 n).length

/-- The exponent of the leading decimal digit of `num / den`. -/
def decade (num den : Nat) : Int :=
  if den ≤ num then (digitCount (num / den) : Int) - 1
  else - (digitCount ((den - 1) / num) : Int)

def stripZeros (ds : List Char) : List Char :=
  (ds.reverse.dropWhile (· == '0')).reverse

def Form.ofCount (count : Nat) (exponent : Int) : Form :=
  ⟨stripZeros (Nat.toDigits 10 count), exponent + digitCount count - 1⟩

namespace Binary64

/-- Whether `count / scale` half units round to the number of rank `r`. -/
def readsBack (r count scale : Nat) : Bool :=
  let low := (unitsOfRank (r - 1) + unitsOfRank r) * scale
  let high := (unitsOfRank r + unitsOfRank (r + 1)) * scale
  if r % 2 == 0 then decide (low ≤ count) && decide (count ≤ high)
  else decide (low < count) && decide (count < high)

/-- The nearer neighbour of the number of rank `r` on the grid `10 ^ exponent`, if one reads
back. -/
def neighbour? (r : Nat) (exponent : Int) : Option Nat :=
  let up := Nat.pow 10 exponent.toNat
  let down := Nat.pow 10 (-exponent).toNat
  let half := 2 * unitsPerOne * up
  let below := 2 * unitsOfRank r * down / half
  let hit := fun count => readsBack r (count * half) down
  let twice := 4 * unitsOfRank r * down
  match hit below, hit (below + 1) with
  | true, true =>
    if twice < (2 * below + 1) * half then some below
    else if (2 * below + 1) * half < twice then some (below + 1)
    else some (below + below % 2)
  | true, false => some below
  | false, true => some (below + 1)
  | false, false => none

/-- Tries grids of `used`, `used + 1`, … digits, at most `tries` of them and then the last one. -/
def shortestFrom (r : Nat) (top : Int) : (tries used : Nat) → Form
  | 0, used => .ofCount ((neighbour? r (top - used + 1)).getD 0) (top - used + 1)
  | tries + 1, used =>
    match neighbour? r (top - used + 1) with
    | some count => .ofCount count (top - used + 1)
    | none => shortestFrom r top tries (used + 1)

/-- The shortest decimal form of a number that is not zero; seventeen digits always suffice. -/
def shortest (x : Binary64) : Form :=
  shortestFrom x.rank (decade x.units unitsPerOne) 16 1

end Binary64

/-!
## Layout

How the digits of a decimal are set out: with a point among them when the number is neither very
large nor very small, and with an exponent otherwise.
-/

/-- Decimals whose leading digit is worth `10 ^ leastPlain` to `10 ^ greatestPlain` are written
without an exponent. -/
structure Layout where
  leastPlain : Int
  greatestPlain : Int

namespace Layout

def zeros (n : Nat) : List Char :=
  List.replicate n '0'

def plain (d : Form) : List Char :=
  if d.exponent < 0 then
    ['0', '.'] ++ zeros ((-d.exponent).toNat - 1) ++ d.digits
  else
    let whole := d.exponent.toNat + 1
    if d.digits.length ≤ whole then
      d.digits ++ zeros (whole - d.digits.length) ++ ['.', '0']
    else d.digits.take whole ++ '.' :: d.digits.drop whole

def scientific (d : Form) : List Char :=
  let mantissa := match d.digits with
    | [] => []
    | [c] => [c]
    | c :: cs => c :: '.' :: cs
  mantissa ++ 'e' :: (if d.exponent < 0 then '-' else '+') :: Nat.toDigits 10 d.exponent.natAbs

def decimal (l : Layout) (d : Form) : List Char :=
  if l.leastPlain ≤ d.exponent ∧ d.exponent ≤ l.greatestPlain then plain d else scientific d

/-- The text of a number; zero keeps its sign. -/
def text (l : Layout) (x : Binary64) : List Char :=
  (if x.negative then ['-'] else []) ++
    if x.isZero then ['0', '.', '0'] else l.decimal x.shortest

end Layout

end ServiceSchema.Decimal
