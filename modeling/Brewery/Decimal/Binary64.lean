/-!
Finite floating point numbers of 64 bits, as exact numbers: `mantissa · 2 ^ exponent` with a
mantissa below `2 ^ 53` and an exponent of at least -1074. A decimal is rounded to the
nearest of them, a tie going to the even mantissa.
-/

namespace Brewery

structure Binary64 where
  negative : Bool
  mantissa : Nat
  exponent : Int
  deriving DecidableEq

namespace Binary64

def leastExponent : Int := -1074

def greatestExponent : Int := 971

/-- `num · 2 ^ shift / den`, rounded to the nearest number, a tie to the even one. -/
def roundQuotient (num den : Nat) (shift : Int) : Nat :=
  let num := num * Nat.pow 2 shift.toNat
  let den := den * Nat.pow 2 (-shift).toNat
  let floor := num / den
  let twice := 2 * (num % den)
  if twice < den then floor
  else if den < twice then floor + 1
  else if floor % 2 = 0 then floor else floor + 1

/-- The number nearest to a positive quotient; none when that is not finite. -/
def ofQuotient (negative : Bool) (num den : Nat) : Option Binary64 :=
  let guess : Int := (num.log2 : Int) - (den.log2 : Int)
  let reached := den * Nat.pow 2 guess.toNat ≤ num * Nat.pow 2 (-guess).toNat
  let magnitude := if reached then guess else guess - 1
  let exponent := max (magnitude - 52) leastExponent
  let mantissa := roundQuotient num den (-exponent)
  let (mantissa, exponent) :=
    if mantissa = Nat.pow 2 53 then (Nat.pow 2 52, exponent + 1) else (mantissa, exponent)
  if greatestExponent < exponent then none else some ⟨negative, mantissa, exponent⟩

def zero (negative : Bool) : Binary64 := ⟨negative, 0, leastExponent⟩

/-- The number nearest to `digits · 10 ^ exponent`. Magnitudes far out of range are decided
by the count of digits, so no huge power is ever formed. -/
def ofDecimal (negative : Bool) (digits : Nat) (exponent : Int) : Option Binary64 :=
  if digits = 0 then some (zero negative)
  else
    let reach := exponent + (Nat.toDigits 10 digits).length
    if 400 < reach then none
    else if reach < -400 then some (zero negative)
    else ofQuotient negative (digits * Nat.pow 10 exponent.toNat)
      (Nat.pow 10 (-exponent).toNat)

end Binary64
end Brewery
