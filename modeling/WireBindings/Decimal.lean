/-!
# Decimals and the nearest double

A decimal as written and the double nearest to it, in exact arithmetic on natural numbers.
-/

namespace WireBindings

structure Decimal where
  negative : Bool
  coefficient : Nat
  exponent : Int
  deriving DecidableEq, Repr

namespace Decimal

/-- The magnitude of a finite double, `mantissa * 2 ^ exponent`. -/
structure Binary64 where
  mantissa : Nat
  exponent : Int
  deriving DecidableEq, Repr

/-- The quotient rounded to the nearest natural number, a half to the even one. -/
def roundDiv (num den : Nat) : Nat :=
  let q := num / den
  let r := num % den
  if 2 * r < den then q
  else if den < 2 * r then q + 1
  else q + q % 2

def digitCount (n : Nat) : Nat := if n = 0 then 0 else (Nat.toDigits 10 n).length

def powParts (base : Nat) (e : Int) : Nat × Nat := (base.pow e.toNat, base.pow (-e).toNat)

def mantissaLimit : Nat := Nat.pow 2 53

/-- The double nearest to `num / den`, a tie to the even mantissa; `none` beyond the greatest one.
-/
def nearestRatio (num den : Nat) : Option Binary64 :=
  if num = 0 then some ⟨0, -1074⟩
  else
    let guess : Int := (num.log2 : Int) - den.log2 - 53
    let scaled (e : Int) : Nat × Nat :=
      let (up, down) := powParts 2 e
      (num * down, den * up)
    let fits (e : Int) : Bool :=
      let (n, d) := scaled e
      n < d * mantissaLimit
    let exponent := max (-1074) (if fits guess then guess else guess + 1)
    let (n, d) := scaled exponent
    let mantissa := roundDiv n d
    let result : Binary64 :=
      if mantissa = mantissaLimit then ⟨mantissaLimit / 2, exponent + 1⟩ else ⟨mantissa, exponent⟩
    if result.exponent ≤ 971 then some result else none

/-- The double nearest to `coefficient * 10 ^ exponent`; `none` stands for infinity. Magnitudes far
outside the range are settled by their size alone. -/
def nearest (coefficient : Nat) (exponent : Int) : Option Binary64 :=
  let size : Int := exponent + digitCount coefficient
  if coefficient = 0 ∨ size < -330 then some ⟨0, -1074⟩
  else if 310 < size then none
  else
    let (up, down) := powParts 10 exponent
    nearestRatio (coefficient * up) down

end Decimal

end WireBindings
