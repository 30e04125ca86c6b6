import ServiceSchema.Decimal
/-!
# TOML literals

Booleans, numbers, dates and times are recognised from their whole spelling.
-/

namespace ServiceSchema.Toml.Literal

def isDigitOf (base : Nat) (c : Char) : Bool :=
  match base with
  | 2 => c == '0' || c == '1'
  | 8 => decide ('0' ≤ c) && decide (c ≤ '7')
  | 10 => c.isDigit
  | _ =>
    c.isDigit || (decide ('a' ≤ c) && decide (c ≤ 'f')) || (decide ('A' ≤ c) && decide (c ≤ 'F'))

def digitValue (c : Char) : Nat :=
  if c.isDigit then c.toNat - '0'.toNat
  else if c.isLower then c.toNat - 'a'.toNat + 10
  else c.toNat - 'A'.toNat + 10

/-- Digits in groups that single underscores separate. -/
def isGrouped (base : Nat) : List Char → Bool
  | [] => false
  | [c] => isDigitOf base c
  | c :: '_' :: rest => isDigitOf base c && isGrouped base rest
  | c :: rest => isDigitOf base c && isGrouped base rest

def naturalValue (base : Nat) (cs : List Char) : Nat :=
  (cs.filter (· != '_')).foldl (fun n c => n * base + digitValue c) 0

/-- Splits off a sign; tells whether it is a minus. -/
def sign : List Char → Bool × List Char
  | '-' :: rest => (true, rest)
  | '+' :: rest => (false, rest)
  | cs => (false, cs)

def isWhole : List Char → Bool
  | ['0'] => true
  | '0' :: _ => false
  | cs => isGrouped 10 cs

/-- Integers are below this bound, `2 ^ 63`, and not below its opposite. -/
def integerBound : Nat := 9223372036854775808

def basedInteger? (base : Nat) (cs : List Char) : Option Int :=
  if isGrouped base cs && decide (naturalValue base cs < integerBound) then
    some (naturalValue base cs)
  else none

/-- A signed 64-bit integer, in decimal or with the mark of another base. -/
def integer? : List Char → Option Int
  | '0' :: 'x' :: cs => basedInteger? 16 cs
  | '0' :: 'o' :: cs => basedInteger? 8 cs
  | '0' :: 'b' :: cs => basedInteger? 2 cs
  | cs =>
    let (minus, digits) := sign cs
    let i : Int := if minus then -(naturalValue 10 digits) else naturalValue 10 digits
    if isWhole digits && decide (-integerBound ≤ i) && decide (i < integerBound) then some i
    else none

def splitAt (p : Char → Bool) (cs : List Char) : List Char × Option (List Char) :=
  match cs.dropWhile (!p ·) with
  | [] => (cs, none)
  | _ :: rest => (cs.takeWhile (!p ·), some rest)

/-- Whether a magnitude, given by its digits and the exponent of the last one, is below the bound of
floating-point numbers. -/
def isFinite (digits : Nat) (exponent : Int) : Bool :=
  let size : Int := (Nat.toDigits 10 digits).length + exponent
  if digits = 0 ∨ size < 0 then true
  else if 400 < size then false
  else
    (Decimal.Binary64.ofRatio false
      (digits * Nat.pow 10 exponent.toNat * Decimal.Binary64.unitsPerOne)
      (Nat.pow 10 (-exponent).toNat)).isSome

/-- A floating-point number; one that overflows to positive infinity is none. -/
def isFloat (cs : List Char) : Bool :=
  let (minus, body) := sign cs
  if body == "inf".toList || body == "nan".toList then true
  else
    let (mantissa, exponent?) := splitAt (fun c => c == 'e' || c == 'E') body
    let (whole, fraction?) := splitAt (· == '.') mantissa
    let (down, power) := sign (exponent?.getD ['0'])
    let fraction := fraction?.getD []
    let shift : Int := if down then -(naturalValue 10 power) else naturalValue 10 power
    isWhole whole && fraction?.all (isGrouped 10) && isGrouped 10 power &&
      (fraction?.isSome || exponent?.isSome) &&
      (minus || isFinite (naturalValue 10 (whole ++ fraction))
        (shift - (fraction.filter (· != '_')).length))

def twoDigits? (least greatest : Nat) : List Char → Option Nat
  | [a, b] =>
    let n := naturalValue 10 [a, b]
    if a.isDigit && b.isDigit && decide (least ≤ n) && decide (n ≤ greatest) then some n else none
  | _ => none

def daysIn (year month : Nat) : Nat :=
  let isLeap := year % 4 == 0 && (year % 100 != 0 || year % 400 == 0)
  if month == 2 then (if isLeap then 29 else 28)
  else if month == 4 || month == 6 || month == 9 || month == 11 then 30
  else 31

def isDate : List Char → Bool
  | [y₁, y₂, y₃, y₄, '-', m₁, m₂, '-', d₁, d₂] =>
    let year := [y₁, y₂, y₃, y₄]
    year.all Char.isDigit &&
      match twoDigits? 1 12 [m₁, m₂] with
      | some month => (twoDigits? 1 (daysIn (naturalValue 10 year) month) [d₁, d₂]).isSome
      | none => false
  | _ => false

/-- A time of day to the second or to a fraction of it; a minute may have a leap second. -/
def isTime : List Char → Bool
  | h₁ :: h₂ :: ':' :: m₁ :: m₂ :: ':' :: s₁ :: s₂ :: rest =>
    (twoDigits? 0 23 [h₁, h₂]).isSome && (twoDigits? 0 59 [m₁, m₂]).isSome &&
      (twoDigits? 0 60 [s₁, s₂]).isSome &&
      match rest with
      | [] => true
      | '.' :: digits => !digits.isEmpty && digits.all Char.isDigit
      | _ => false
  | _ => false

def isOffset : List Char → Bool
  | ['Z'] => true
  | ['z'] => true
  | [s, h₁, h₂, ':', m₁, m₂] =>
    (s == '+' || s == '-') && (twoDigits? 0 23 [h₁, h₂]).isSome && (twoDigits? 0 59 [m₁, m₂]).isSome
  | _ => false

def isZonedTime (cs : List Char) : Bool :=
  let time := cs.takeWhile fun c => c.isDigit || c == ':' || c == '.'
  let offset := cs.dropWhile fun c => c.isDigit || c == ':' || c == '.'
  isTime time && (offset.isEmpty || isOffset offset)

def isMoment (cs : List Char) : Bool :=
  isDate cs || isTime cs ||
    match cs.drop 10 with
    | c :: time => isDate (cs.take 10) && (c == 'T' || c == 't' || c == ' ') && isZonedTime time
    | [] => false

end ServiceSchema.Toml.Literal
