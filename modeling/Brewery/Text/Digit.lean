import Brewery.Text.Basic

/-!
Digits and the numbers and characters they spell.
-/

namespace Brewery.Text

def isHexDigit (c : Char) : Bool :=
  c.isDigit || ('a' ≤ c && c ≤ 'f') || ('A' ≤ c && c ≤ 'F')

def digitValue (c : Char) : Nat :=
  if c.isDigit then c.toNat - 48 else if 'a' ≤ c then c.toNat - 87 else c.toNat - 55

/-- The number that digits spell in a base. -/
def number (base : Nat) (digits : Text) : Nat :=
  digits.foldl (fun total c => total * base + digitValue c) 0

/-- A character given by exactly so many hexadecimal digits, and the text after them. Half
of a surrogate pair, or a number beyond the last character, is none. -/
def codePoint? (count : Nat) (text : Text) : Option (Char × Text) :=
  let digits := text.take count
  let code := number 16 digits
  if digits.length = count && digits.all isHexDigit && code.isValidChar then
    some (Char.ofNat code, text.drop count)
  else none

end Brewery.Text
