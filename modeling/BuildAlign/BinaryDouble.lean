/-! # Doubles

The values of the 64-bit binary floating point format, and the one nearest to a decimal number. -/
namespace BuildAlign

/-- Finite values are `m * 2 ^ q`, with `m < 2 ^ 53` and `-1074 ≤ q ≤ 971`; below `2 ^ 52` the
significand `m` only occurs with the least exponent. -/
inductive Double
  | finite (negative : Bool) (m : Nat) (q : Int)
  | infinite (negative : Bool)
  | nan
deriving DecidableEq, Repr

abbrev twoTo (k : Nat) : Nat := Nat.pow 2 k

abbrev tenTo (k : Nat) : Nat := Nat.pow 10 k

namespace Double

def leastExponent : Int := -1074
def greatestExponent : Int := 971

/-- `n / d` rounded to an integer, a half going to the even neighbour. -/
def roundDiv (n d : Nat) : Nat :=
  let floor := n / d
  let rest := 2 * (n % d)
  if rest < d || rest = d && floor % 2 = 0 then floor else floor + 1

/-- `n / d` in units of `2 ^ q`, as a quotient. -/
def scaled (n d : Nat) (q : Int) : Nat × Nat := (n * twoTo (-q).toNat, d * twoTo q.toNat)

/-- The least exponent for which the significand of `n / d` fits in 53 bits. -/
def exponentFor (n d : Nat) : Int :=
  let q := max ((n.log2 : Int) - d.log2 - 53) leastExponent
  let (a, b) := scaled n d q
  if a / b < twoTo 53 then q else q + 1

/-- The double nearest to `n / d`; of two the one with the even significand. -/
def nearest (negative : Bool) (n d : Nat) : Double :=
  if n = 0 then finite negative 0 leastExponent
  else
    let q := exponentFor n d
    let (a, b) := scaled n d q
    let m := roundDiv a b
    let (m, q) := if m = twoTo 53 then (twoTo 52, q + 1) else (m, q)
    if q > greatestExponent then infinite negative else finite negative m q

/-- Decimal numbers of this order of magnitude are infinite as doubles. -/
def hugeOrder : Int := 400
/-- Decimal numbers below this order of magnitude are zero as doubles. -/
def tinyOrder : Int := -400

/-- The double nearest to `digits * 10 ^ exponent`.  Numbers far out of range are not computed. -/
def ofDecimal (negative : Bool) (digits : Nat) (exponent : Int) : Double :=
  let order := exponent + (Nat.repr digits).length
  if digits = 0 || order < tinyOrder then finite negative 0 leastExponent
  else if order > hugeOrder then infinite negative
  else nearest negative (digits * tenTo exponent.toNat) (tenTo (-exponent).toNat)

end Double
end BuildAlign
