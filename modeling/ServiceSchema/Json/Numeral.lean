import ServiceSchema.Json.Reader
/-!
# Numerals

A numeral is read in two steps: its digits first, then its value. A whole numeral in the integer
range is an integer. Any other is a floating-point number: its digits are gathered into a 64-bit
significand as far as they fit, and the significand is scaled once by a power of ten.
-/

namespace ServiceSchema.Json

open Decimal (Binary64)

/-- The digits of a numeral; an absent fraction has none. -/
structure Numeral where
  whole : List Char
  fraction : List Char
  exponent : Option (Bool × List Char)

namespace Numeral

def someDigits (atEnd : Fault) : Reader (List Char) := fun cs =>
  match cs with
  | [] => .error atEnd
  | c :: _ =>
    if c.isDigit then .ok (cs.takeWhile Char.isDigit, cs.dropWhile Char.isDigit)
    else .error .invalidNumber

def wholePart (atEnd : Fault) : Reader (List Char) := fun cs =>
  match cs with
  | '0' :: c :: rest =>
    if c.isDigit then .error .invalidNumber else .ok (['0'], c :: rest)
  | _ => someDigits atEnd cs

def fractionPart (atEnd : Fault) : Reader (List Char)
  | '.' :: rest => someDigits atEnd rest
  | cs => .ok ([], cs)

def exponentSign : Reader Bool
  | '-' :: rest => .ok (true, rest)
  | '+' :: rest => .ok (false, rest)
  | cs => .ok (false, cs)

def exponentPart (atEnd : Fault) : Reader (Option (Bool × List Char)) := fun cs =>
  match cs with
  | [] => .ok (none, [])
  | c :: rest =>
    if c = 'e' ∨ c = 'E' then
      (do
        let minus ← exponentSign
        let digits ← someDigits atEnd
        return some (minus, digits) : Reader (Option (Bool × List Char))) rest
    else .ok (none, cs)

/-- Reads a numeral without its sign; `atEnd` is the fault of a text that ends too early. -/
def read (atEnd : Fault) : Reader Numeral := do
  let whole ← wholePart atEnd
  let fraction ← fractionPart atEnd
  let exponent ← exponentPart atEnd
  return ⟨whole, fraction, exponent⟩

def digitValue (c : Char) : Nat :=
  c.toNat - '0'.toNat

def significandBound : Nat := 18446744073709551616

/-- Appends digits to a significand as long as it stays below its bound; the digits that are left
are given too. -/
def gather (significand : Nat) : List Char → Nat × List Char
  | [] => (significand, [])
  | d :: ds =>
    if significand * 10 + digitValue d < significandBound then
      gather (significand * 10 + digitValue d) ds
    else (significand, d :: ds)

def natValue (ds : List Char) : Nat :=
  ds.foldl (fun n d => n * 10 + digitValue d) 0

def greatestPower : Nat := 308

def quotient (x : Binary64) (e : Nat) : Binary64 :=
  (((Binary64.tenPow? e).bind x.div?)).getD x

/-- Divides by a power of ten, in several steps when it is too large for one. -/
def lower : (fuel : Nat) → Binary64 → Nat → Binary64
  | 0, x, _ => x
  | fuel + 1, x, e =>
    if e ≤ greatestPower then quotient x e
    else if x.isZero then x
    else lower fuel (quotient x greatestPower) (e - greatestPower)

def scale? (significand : Nat) (exponent : Int) : Option Binary64 := do
  let x ← Binary64.ofNat? significand
  if exponent < 0 then
    return lower (exponent.natAbs / greatestPower + 1) x exponent.natAbs
  else if exponent.natAbs ≤ greatestPower then
    x.mul? (← Binary64.tenPow? exponent.natAbs)
  else if x.isZero then return x
  else none

/-- Exponents from this bound on, `2 ^ 31`, give zero or are out of range. -/
def exponentBound : Nat := 2147483648

def float? (n : Numeral) : Option Binary64 :=
  let (significand, wholeLeft) := gather 0 n.whole
  let (significand, fractionLeft) := gather significand n.fraction
  let shift : Int := wholeLeft.length - (n.fraction.length - fractionLeft.length)
  match n.exponent with
  | none => scale? significand shift
  | some (minus, digits) =>
    let e := natValue digits
    if e < exponentBound then scale? significand (if minus then shift - e else shift + e)
    else if significand = 0 ∨ minus then some (Binary64.zero false)
    else none

/-- The integer that a whole numeral stands for, if it stays one; zero with a minus does not. -/
def integer? (negative : Bool) (n : Numeral) : Option Number :=
  let i : Int := if negative then -(natValue n.whole) else natValue n.whole
  if n.fraction.isEmpty && n.exponent.isNone && !(negative && i == 0) then
    if h : integerRange i then some (.integer i h) else none
  else none

def value (negative : Bool) (n : Numeral) : Except Fault Number :=
  match n.integer? negative with
  | some i => .ok i
  | none =>
    match n.float? with
    | some x => .ok (.float (x.withSign negative))
    | none => .error .numberOutOfRange

end Numeral

def numberRest (negative : Bool) : Reader Number := fun cs =>
  match Numeral.read .valueEnds cs with
  | .error f => .error f
  | .ok (n, rest) =>
    match n.value negative with
    | .error f => .error f
    | .ok x => .ok (x, rest)

end ServiceSchema.Json
