
namespace ScriptMaps.Numeric

-- Of two equally near numbers the even one.
def divNearestEven (num den : Nat) : Nat :=
  let quotient := num / den
  let twice := 2 * (num % den)
  if twice < den then quotient
  else if den < twice then quotient + 1
  else quotient + quotient % 2

-- Numbers that are not negative, in exact arithmetic.
structure Fraction where
  num : Nat
  den : Nat
  deriving DecidableEq, Repr

namespace Fraction

def ofNat (n : Nat) : Fraction :=
  ⟨n, 1⟩

def add (a b : Fraction) : Fraction :=
  ⟨a.num * b.den + b.num * a.den, a.den * b.den⟩

def mul (a b : Fraction) : Fraction :=
  ⟨a.num * b.num, a.den * b.den⟩

def divPow2 (a : Fraction) (exponent : Int) : Fraction :=
  if 0 ≤ exponent then ⟨a.num, a.den * Nat.pow 2 exponent.toNat⟩
  else ⟨a.num * Nat.pow 2 (-exponent).toNat, a.den⟩

-- The one whose power of two divides the number to a quotient from 2^52 up to 2^53.
def exponent (a : Fraction) : Int :=
  -- the number lies between the powers of two with the exponents `gap - 1` and `gap + 1`
  let gap : Int := (Nat.log2 a.num : Int) - Nat.log2 a.den
  let low := a.divPow2 (gap - 53)
  if low.num < Nat.pow 2 53 * low.den then gap - 53 else gap - 52

-- To a significand of 53 bits, and to the even one of two that are equally near. The exponent is not bounded.
def round (a : Fraction) : Fraction :=
  if a.num = 0 then ⟨0, 1⟩
  else
    let scaled := a.divPow2 a.exponent
    (ofNat (divNearestEven scaled.num scaled.den)).divPow2 (-a.exponent)

def overflows (a : Fraction) : Bool :=
  (Nat.pow 2 1024 - Nat.pow 2 970) * a.den ≤ a.num

-- With at least one place. A tie goes to the even neighbour.
def fixed (a : Fraction) (places : Nat) : String :=
  let unit := Nat.pow 10 places
  let scaled := divNearestEven (a.num * unit) a.den
  let decimals := toString (scaled % unit)
  toString (scaled / unit) ++ "." ++
    String.ofList (List.replicate (places - decimals.length) '0') ++ decimals

end Fraction

end ScriptMaps.Numeric
