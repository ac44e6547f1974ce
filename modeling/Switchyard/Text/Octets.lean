/-!
# Octets as text

Well-formed UTF-8 and hexadecimal writing of octets.
-/

namespace Switchyard.Text

/-- The text of a well-formed octet sequence. -/
def ofOctets (bytes : ByteArray) : Option String := String.fromUTF8? bytes

private def hexValue (c : Char) : Option Nat :=
  if '0' ≤ c && c ≤ '9' then some (c.toNat - 48)
  else if 'a' ≤ c && c ≤ 'f' then some (c.toNat - 87)
  else if 'A' ≤ c && c ≤ 'F' then some (c.toNat - 55)
  else none

/-- Two digits an octet. -/
def octetsOfHex : List Char → Option (List UInt8)
  | [] => some []
  | [_] => none
  | a :: b :: rest => do
    let h ← hexValue a
    let l ← hexValue b
    return (UInt8.ofNat (16 * h + l)) :: (← octetsOfHex rest)

/-- The number written by hexadecimal digits. -/
def ofHex (s : String) : Option Nat :=
  match s.toList with
  | [] => none
  | cs => cs.foldlM (fun acc c => (hexValue c).map (16 * acc + ·)) 0

def hexDigit (n : Nat) : Char :=
  if n < 10 then Char.ofNat (48 + n) else Char.ofNat (87 + n)

def hexDigits : Nat → Nat → List Char → List Char
  | 0, _, acc => acc
  | k + 1, n, acc => hexDigits k (n / 16) (hexDigit (n % 16) :: acc)

/-- `width` hexadecimal digits, small letters. -/
def hex (width n : Nat) : String := String.ofList (hexDigits width n [])

end Switchyard.Text
