import ConfigContract.Number.Binary64

/-!
The shortest decimal that stands for a floating-point number: of the decimals nearer to it than to
any other number, one with the fewest digits, and among those the nearest.
-/

namespace ConfigContract

structure Decimal where
  digits : Nat
  exponent : Int
deriving DecidableEq, Repr

namespace Shortest

open Binary64 (twoTo tenTo)

def compareScaled (a : Nat) (p : Int) (c : Nat) (k : Int) : Ordering :=
  compare (a * twoTo p.toNat * tenTo (-k).toNat) (c * tenTo k.toNat * twoTo (-p).toNat)

/-- Quarters of the mantissa at which the numbers that round to `x` begin and end. -/
def interval (x : Binary64) : Nat × Nat :=
  let atPower := x.mantissa = twoTo 52 ∧ Binary64.leastExponent < x.exponent
  (4 * x.mantissa - (if atPower then 1 else 2), 4 * x.mantissa + 2)

/-- Whether `c * 10 ^ k` rounds to `x`; the ends of the interval do when the mantissa is even. -/
def reads (x : Binary64) (c : Nat) (k : Int) : Bool :=
  let (low, high) := interval x
  let even := x.mantissa % 2 == 0
  let below := compareScaled low (x.exponent - 2) c k
  let above := compareScaled high (x.exponent - 2) c k
  (below == .lt || (even && below == .eq)) && (above == .gt || (even && above == .eq))

def leadingPower (x : Binary64) : Int :=
  let (num, den) := x.quotient
  if den ≤ num then ((Nat.toDigits 10 (num / den)).length : Int) - 1
  else -((Nat.toDigits 10 ((den - 1) / num)).length : Int)

def neighbours (x : Binary64) (count : Nat) : List Decimal :=
  let k := leadingPower x + 1 - count
  let p := x.exponent
  let floor := (x.mantissa * twoTo p.toNat * tenTo (-k).toNat) / (tenTo k.toNat * twoTo (-p).toNat)
  let lower : Decimal := ⟨floor, k⟩
  let upper : Decimal := ⟨floor + 1, k⟩
  match compareScaled (2 * x.mantissa) p (2 * floor + 1) k with
  | .lt => [lower, upper]
  | .gt => [upper, lower]
  | .eq => if floor % 2 = 0 then [lower, upper] else [upper, lower]

/-- The first hit among the decimals of one digit, two digits, and so on. -/
def search (x : Binary64) : Nat → Nat → Decimal
  | 0, count => ((neighbours x count).head?).getD ⟨0, 0⟩
  | steps + 1, count =>
      match (neighbours x count).find? fun d => reads x d.digits d.exponent with
      | some decimal => decimal
      | none => search x steps (count + 1)

def decimal (x : Binary64) : Decimal := search x 17 1

end Shortest

/-- Which exponents are written positionally; the others take the form `1.5e-7` or `1e+16`. -/
structure DecimalFormat where
  leastPositional : Int
  leastScientific : Int

namespace DecimalFormat

/-- From `0.00001` up to below `1e+16`. -/
def standard : DecimalFormat := ⟨-5, 16⟩

def zeros (n : Nat) : List Char := List.replicate n '0'

def scientific (digits : List Char) (power : Int) : List Char :=
  let mantissa :=
    match digits with
    | [] => []
    | [d] => [d]
    | d :: more => d :: '.' :: more
  let sign := if power < 0 then '-' else '+'
  mantissa ++ 'e' :: sign :: Nat.toDigits 10 power.natAbs

def positional (digits : List Char) (power : Int) : List Char :=
  if power < 0 then '0' :: '.' :: zeros (power.natAbs - 1) ++ digits
  else
    let whole := power.toNat + 1
    if digits.length ≤ whole then digits ++ zeros (whole - digits.length) ++ ['.', '0']
    else digits.take whole ++ '.' :: digits.drop whole

def write (format : DecimalFormat) (x : Binary64) : List Char :=
  let sign := if x.negative then ['-'] else []
  if x.mantissa = 0 then sign ++ ['0', '.', '0']
  else
    let decimal := Shortest.decimal x
    let all := Nat.toDigits 10 decimal.digits
    let digits := (all.reverse.dropWhile (· == '0')).reverse
    let power : Int := decimal.exponent + all.length - 1
    let body :=
      if power < format.leastPositional ∨ format.leastScientific ≤ power then
        scientific digits power
      else positional digits power
    sign ++ body

end DecimalFormat

end ConfigContract
