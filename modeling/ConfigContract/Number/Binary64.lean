/-!
Finite floating-point numbers of 64 bits, in exact arithmetic: rounding a quotient to the nearest
of them, and reading a decimal by repeated scaling.
-/

namespace ConfigContract

/-- Sign, and a mantissa below `2 ^ 53` times a power of two from `2 ^ -1074` on. -/
structure Binary64 where
  negative : Bool
  mantissa : Nat
  exponent : Int
deriving DecidableEq, Repr

namespace Binary64

def twoTo (power : Nat) : Nat := Nat.pow 2 power

def tenTo (power : Nat) : Nat := Nat.pow 10 power

def leastExponent : Int := -1074

def greatestExponent : Int := 971

def zero (negative : Bool) : Binary64 := ⟨negative, 0, leastExponent⟩

def quotient (x : Binary64) : Nat × Nat :=
  (x.mantissa * twoTo x.exponent.toNat, twoTo (-x.exponent).toNat)

/-- The power of two at which `num / den` has a mantissa of 53 bits, or the least one there is. -/
def exponentFor (num den : Nat) : Int :=
  let size : Int := (num.log2 : Int) - den.log2
  let fits := den * twoTo size.toNat ≤ num * twoTo (-size).toNat
  max (if fits then size - 52 else size - 53) leastExponent

/-- The nearest number to `num / den`, a tie going to the even mantissa; none if it is too large. -/
def nearest (negative : Bool) (num den : Nat) : Option Binary64 :=
  if num = 0 then some (zero negative)
  else
    let exponent := exponentFor num den
    let scaledNum := num * twoTo (-exponent).toNat
    let scaledDen := den * twoTo exponent.toNat
    let floor := scaledNum / scaledDen
    let twice := 2 * (scaledNum % scaledDen)
    let up := twice > scaledDen || (twice == scaledDen && floor % 2 == 1)
    let mantissa := if up then floor + 1 else floor
    let rounded : Binary64 :=
      if mantissa = twoTo 53 then ⟨negative, twoTo 52, exponent + 1⟩
      else ⟨negative, mantissa, exponent⟩
    if rounded.exponent ≤ greatestExponent then some rounded else none

/-- The number nearest to `10 ^ power`, for a power of at most 308. -/
def powerOfTen (power : Nat) : Binary64 := (nearest false (tenTo power) 1).getD (zero false)

def times (x y : Binary64) : Option Binary64 :=
  let (a, b) := x.quotient
  let (c, d) := y.quotient
  nearest x.negative (a * c) (b * d)

def dividedBy (x y : Binary64) : Binary64 :=
  let (a, b) := x.quotient
  let (c, d) := y.quotient
  (nearest x.negative (a * d) (b * c)).getD (zero x.negative)

/-- Divides by `10 ^ power`, by no more than `10 ^ 308` in one step. -/
def scaleDown : Nat → Binary64 → Nat → Binary64
  | 0, x, power => x.dividedBy (powerOfTen power)
  | steps + 1, x, power =>
      if power ≤ 308 ∨ x.mantissa = 0 then x.dividedBy (powerOfTen (min power 308))
      else scaleDown steps (x.dividedBy (powerOfTen 308)) (power - 308)

/--
Reads `significand * 10 ^ exponent`: the significand is rounded first and then scaled, each step
rounded again, so the result is near the decimal but not always the nearest number to it.
-/
def ofDecimal (negative : Bool) (significand : Nat) (exponent : Int) : Option Binary64 :=
  match nearest negative significand 1 with
  | none => none
  | some x =>
      if x.mantissa = 0 then some x
      else if exponent < 0 then
        let power := exponent.natAbs
        some (scaleDown (power / 308 + 1) x power)
      else if exponent ≤ 308 then x.times (powerOfTen exponent.toNat)
      else none

end Binary64

end ConfigContract
