import Switchyard.Text.Number

/-!
# Decimal text to binary64

A decimal is read exactly as a fraction and then rounded once, to nearest with ties to even.
The result is the bit pattern.
-/

namespace Switchyard.Text

/-- `num / den` rounded to a whole number, a tie to the even neighbour. -/
def roundHalfEven (num den : Nat) : Nat :=
  let q := num / den
  let r := num % den
  if 2 * r < den then q
  else if 2 * r = den then (if q % 2 = 0 then q else q + 1)
  else q + 1

/-- The bit above the fraction of a binary64 value. -/
def hiddenBit : Nat := 0x10000000000000

def infinityBits : Nat := 0x7FF0000000000000

def signBit : Nat := 0x8000000000000000

/-- The exponent of the unit in the last place of the positive fraction `num / den`. -/
def unitExponent (num den : Nat) : Int :=
  let e : Int := (num.log2 : Int) - den.log2 - 52
  let scaled := if 0 ≤ e then num / (den * Nat.pow 2 e.toNat)
    else num * Nat.pow 2 (-e).toNat / den
  max (if scaled < hiddenBit then e - 1 else e) (-1074)

/-- Bit pattern of the binary64 value nearest to `num / den`, infinity included. -/
def nearestBits (num den : Nat) : Nat :=
  if num = 0 then 0 else
  let e := unitExponent num den
  let q := if 0 ≤ e then roundHalfEven num (den * Nat.pow 2 e.toNat)
    else roundHalfEven (num * Nat.pow 2 (-e).toNat) den
  min ((e + 1074).toNat * hiddenBit + q) infinityBits

structure Decimal where
  mantissa : Nat
  exponent : Int
  deriving DecidableEq, Repr

/-- `mantissa * 10 ^ exponent`. Exponents far outside the range of binary64 are cut short:
the value is then infinite or zero whatever its digits. -/
def Decimal.bits (d : Decimal) : Nat :=
  let magnitude : Int := d.exponent + d.mantissa.log2 / 3
  if d.mantissa = 0 then 0
  else if magnitude < -400 then 0
  else if d.exponent > 400 then infinityBits
  else if 0 ≤ d.exponent then nearestBits (d.mantissa * Nat.pow 10 d.exponent.toNat) 1
  else nearestBits d.mantissa (Nat.pow 10 (-d.exponent).toNat)

private def splitDigits (cs : List Char) : List Char × List Char :=
  (cs.takeWhile fun c => (digitValue c).isSome, cs.dropWhile fun c => (digitValue c).isSome)

/-- An exponent part: nothing, or `e`, an optional sign and at least one digit. -/
private def exponentPart : List Char → Option Int
  | [] => some 0
  | c :: cs =>
    if c == 'e' || c == 'E' then
      match cs with
      | '+' :: ds => (natural ds).map Int.ofNat
      | '-' :: ds => (natural ds).map fun n => -(n : Int)
      | ds => (natural ds).map Int.ofNat
    else none

/-- Digits with an optional point among, before or after them, and an optional exponent. -/
def decimal (cs : List Char) : Option Decimal :=
  let (whole, rest) := splitDigits cs
  let (fraction, rest) := match rest with
    | '.' :: tail => splitDigits tail
    | _ => ([], rest)
  if whole.isEmpty && fraction.isEmpty then none else do
    let m ← digits 0 (whole ++ fraction)
    let e ← exponentPart rest
    return ⟨m, e - fraction.length⟩

inductive Floating where
  | nan
  | bits (pattern : Nat)
  deriving DecidableEq, Repr

/-- A sign, then a decimal or one of the names of infinity and not-a-number in any case. -/
def floating (s : String) : Option Floating :=
  let (negative, cs) := match s.toList with
    | '+' :: cs => (false, cs)
    | '-' :: cs => (true, cs)
    | cs => (false, cs)
  let signed (n : Nat) : Floating := .bits (if negative then signBit + n else n)
  let name := cs.map Char.toLower
  if name == "nan".toList then some .nan
  else if name == "inf".toList || name == "infinity".toList then some (signed infinityBits)
  else (decimal cs).map fun d => signed d.bits

end Switchyard.Text
