import Brewery.Decimal.Binary64

/-!
The shortest decimal that reads back as a given floating point number. The numbers that
round to it form an interval, its ends included when the mantissa is even. Grids of one,
two and more digits are tried in turn; on each only the two neighbours of the number can lie
in the interval, and the nearer of them is taken, a tie going to the even one.
-/

namespace Brewery

/-- `digits · 10 ^ exponent`, where the digits do not end in zero unless they are zero. -/
structure ShortDecimal where
  digits : Nat
  exponent : Int
  deriving DecidableEq

namespace ShortDecimal

def dropZeros : Nat → Nat → Int → ShortDecimal
  | 0, digits, exponent => ⟨digits, exponent⟩
  | bound + 1, digits, exponent =>
      if digits ≠ 0 && digits % 10 = 0 then dropZeros bound (digits / 10) (exponent + 1)
      else ⟨digits, exponent⟩

/-- The `e` with `10 ^ (e - 1) ≤ num / den < 10 ^ e`. -/
def magnitude (num den : Nat) : Int :=
  if den ≤ num then (Nat.toDigits 10 (num / den)).length
  else
    let places := (Nat.toDigits 10 (den / num)).length
    if den = num * Nat.pow 10 (places - 1) then 2 - (places : Int) else 1 - (places : Int)

/-- The grid of `count` digits: the neighbour of `mantissa · 2 ^ exponent` on it that reads
back, if one does. Lengths are measured in quarters of the last mantissa bit. -/
def onGrid? (mantissa : Nat) (exponent : Int) (size : Int) (count : Nat) :
    Option ShortDecimal :=
  let step : Int := size - count
  let scale := Nat.pow 10 step.toNat * Nat.pow 2 (2 - exponent).toNat
  let unit := Nat.pow 10 (-step).toNat * Nat.pow 2 (exponent - 2).toNat
  let low := 4 * mantissa -
    (if mantissa = Nat.pow 2 52 && Binary64.leastExponent < exponent then 1 else 2)
  let high := 4 * mantissa + 2
  let readsBack (digits : Nat) : Bool :=
    let point := digits * scale
    if mantissa % 2 = 0 then low * unit ≤ point && point ≤ high * unit
    else low * unit < point && point < high * unit
  let below := 4 * mantissa * unit / scale
  let remainder := 4 * mantissa * unit % scale
  match readsBack below, readsBack (below + 1) with
  | true, true =>
      if 2 * remainder < scale || (2 * remainder = scale && below % 2 = 0)
      then some ⟨below, step⟩ else some ⟨below + 1, step⟩
  | true, false => some ⟨below, step⟩
  | false, true => some ⟨below + 1, step⟩
  | false, false => none

/-- The shortest decimal of a number, its sign aside. -/
def ofBinary64 (number : Binary64) : ShortDecimal :=
  if number.mantissa = 0 then ⟨0, 0⟩
  else
    let num := number.mantissa * Nat.pow 2 number.exponent.toNat
    let den := Nat.pow 2 (-number.exponent).toNat
    let size := magnitude num den
    let found := (List.range 17).findSome? fun count =>
      onGrid? number.mantissa number.exponent size (count + 1)
    match found with
    | some short => dropZeros 17 short.digits short.exponent
    | none => ⟨0, 0⟩

end ShortDecimal
end Brewery
