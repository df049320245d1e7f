import WireBindings.Decimal

/-!
# Shortest decimal text

The fewest digits that read back as the double nearest to a decimal, and the text they are shown in.
-/

namespace WireBindings.Decimal

/-- The decimal exponent `e` with `10 ^ (e - 1) ≤ num / den < 10 ^ e`. -/
def pointPosition (num den : Nat) : Int :=
  let guess : Int := (digitCount num : Int) - digitCount den
  let (up, down) := powParts 10 guess
  if num * down < den * up then guess else guess + 1

/-- The candidates with `count` digits around a double: its neighbours on that decimal grid, the
nearer one first and the even one first on a tie. -/
def gridNeighbours (num den : Nat) (position : Int) (count : Nat) : List (Nat × Int) :=
  let exponent := position - count
  let (up, down) := powParts 10 exponent
  let n := num * down
  let d := den * up
  let below := n / d
  let near := roundDiv n d
  let far := if near = below then below + 1 else below
  [(near, exponent), (far, exponent)]

def shortest (v : Binary64) : Nat × Int :=
  let (up, down) := powParts 2 v.exponent
  let num := v.mantissa * up
  let position := pointPosition num down
  let candidates := (List.range 17).flatMap fun k => gridNeighbours num down position (k + 1)
  match candidates.find? fun c => nearest c.1 c.2 == some v with
  | some c => c
  | none => (num / down, 0)

/-- Digits with a decimal point: positional while the point stands within sixteen places after the
first digit and four before it, with an exponent of at least two digits beyond. -/
def pointText (coefficient : Nat) (exponent : Int) : String :=
  let digits := (Nat.toDigits 10 coefficient)
  let position : Int := exponent + digits.length
  if -4 < position ∧ position ≤ 16 then
    if position ≤ 0 then
      "0." ++ String.ofList (List.replicate (-position).toNat '0' ++ digits)
    else
      let whole := digits.take position.toNat
      let zeros := List.replicate (position.toNat - digits.length) '0'
      let fraction := digits.drop position.toNat
      String.ofList (whole ++ zeros ++ '.' :: (if fraction.isEmpty then ['0'] else fraction))
  else
    let tail := digits.drop 1
    let power := position - 1
    let powerDigits := Nat.toDigits 10 power.natAbs
    let padded := List.replicate (2 - powerDigits.length) '0' ++ powerDigits
    String.ofList (digits.take 1 ++ (if tail.isEmpty then [] else '.' :: tail) ++
      'e' :: (if power < 0 then '-' else '+') :: padded)

/-- Drops trailing zeros of a coefficient, at most `fuel` of them. -/
def dropZeros : Nat → Nat → Int → Nat × Int
  | 0, c, e => (c, e)
  | fuel + 1, c, e => if c % 10 = 0 ∧ c ≠ 0 then dropZeros fuel (c / 10) (e + 1) else (c, e)

/-- The decimal as a double shows it: the fewest digits that read back, `inf` beyond the range. -/
def text (d : Decimal) : String :=
  let sign := if d.negative then "-" else ""
  match nearest d.coefficient d.exponent with
  | none => sign ++ "inf"
  | some v =>
    if v.mantissa = 0 then sign ++ "0.0"
    else
      let (c, e) := shortest v
      let (c, e) := dropZeros 17 c e
      sign ++ pointText c e

end WireBindings.Decimal
