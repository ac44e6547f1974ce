/-!
# Whole numbers and characters in text

A whole number is an optional sign and at least one decimal digit; the minus sign is for ranges
that go below zero. The value has to lie in the range that is asked for.
-/

namespace Switchyard.Text

/-- Values `low ≤ n ≤ high` of a fixed-width integer. -/
structure Range where
  low : Int
  high : Int
  deriving DecidableEq, Repr

namespace Range

/-- The number of values of a word, and of the values below zero of a word one bit longer. -/
def span (bits : Nat) : Int := Int.ofNat (Nat.pow 2 bits)

def unsigned (bits : Nat) : Range := ⟨0, span bits - 1⟩
def signed (bits : Nat) : Range := ⟨-span (bits - 1), span (bits - 1) - 1⟩

def mem (r : Range) (n : Int) : Bool := r.low ≤ n && n ≤ r.high

def width (r : Range) : Int := r.high - r.low + 1

/-- The value in the range that differs from `n` by a multiple of the width. -/
def wrap (r : Range) (n : Int) : Int := (n - r.low) % r.width + r.low

end Range

def digitValue (c : Char) : Option Nat :=
  if '0' ≤ c && c ≤ '9' then some (c.toNat - 48) else none

/-- The value of a text of digits read onto `acc`. -/
def digits : Nat → List Char → Option Nat
  | acc, [] => some acc
  | acc, c :: cs => (digitValue c).bind fun d => digits (10 * acc + d) cs

/-- At least one digit. -/
def natural : List Char → Option Nat
  | [] => none
  | cs => digits 0 cs

def integer (r : Range) (s : String) : Option Int :=
  let read : Option Int :=
    match s.toList with
    | '+' :: cs => (natural cs).map Int.ofNat
    | '-' :: cs => if r.low < 0 then (natural cs).map fun n => -(n : Int) else none
    | cs => (natural cs).map Int.ofNat
  read.filter r.mem

def boolean : String → Option Bool
  | "true" => some true
  | "false" => some false
  | _ => none

def character (s : String) : Option Char :=
  match s.toList with
  | [c] => some c
  | _ => none

end Switchyard.Text
