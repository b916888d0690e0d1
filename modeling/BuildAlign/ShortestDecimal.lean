import BuildAlign.BinaryDouble

/-! # The shortest decimal that reads back

A positive double `m * 2 ^ q` is the nearest one to every real between the midpoints to its
neighbours, and to the midpoints themselves when `m` is even.  Among the decimals there, the one
with the fewest digits is taken, and of those the one nearest to the value. -/
namespace BuildAlign.ShortestDecimal

/-- The reals that read as one double, as multiples of the unit `unitNum / unitDen`. -/
structure Interval where
  low : Nat
  value : Nat
  high : Nat
  unitNum : Nat
  unitDen : Nat
  closed : Bool

/-- The interval in quarters of `2 ^ q`; below a power of two the neighbour is nearer. -/
def intervalOf (m : Nat) (q : Int) : Interval where
  low := 4 * m - (if m = twoTo 52 && q > Double.leastExponent then 1 else 2)
  value := 4 * m
  high := 4 * m + 2
  unitNum := twoTo (q - 2).toNat
  unitDen := twoTo (2 - q).toNat
  closed := m % 2 = 0

def digitCount (n : Nat) : Nat := (Nat.repr n).length

/-- The exponent of ten of the leading digit of `n / d`. -/
def order (n d : Nat) : Int :=
  if n ≥ d then digitCount (n / d) - 1 else -(digitCount (d / n) : Int)

/-- The decimal `k * 10 ^ g` in the interval, if one of the two nearest to the value on this grid
is; of both the nearer, and the even one when they are equally near. -/
def onGrid? (i : Interval) (g : Int) : Option Nat :=
  let scale := i.unitNum * tenTo (-g).toNat
  let grid := i.unitDen * tenTo g.toNat
  let (low, value, high) := (i.low * scale, i.value * scale, i.high * scale)
  let k := value / grid
  let below := if i.closed then low ≤ k * grid else low < k * grid
  let above := if i.closed then (k + 1) * grid ≤ high else (k + 1) * grid < high
  let toBelow := value - k * grid
  let toAbove := (k + 1) * grid - value
  if below && above then
    some (if toBelow < toAbove || toBelow = toAbove && k % 2 = 0 then k else k + 1)
  else if below then some k
  else if above then some (k + 1)
  else none

/-- Seventeen digits always suffice. -/
def mostDigits : Nat := 17

/-- The digits of the decimal and the exponent of ten of its last digit. -/
def digits (m : Nat) (q : Int) : List Char × Int :=
  let i := intervalOf m q
  let top := order (i.value * i.unitNum) i.unitDen
  let candidates := (List.range mostDigits).filterMap fun (n : Nat) =>
    let g := top - (n : Int)
    (onGrid? i g).map fun k => (k, g)
  match candidates with
  | (k, g) :: _ =>
    let ds := (Nat.repr k).toList
    let significant := (ds.reverse.dropWhile (· = '0')).reverse
    (significant, g + (ds.length - significant.length : Nat))
  | [] => ((Nat.repr (m * twoTo q.toNat)).toList, 0)

end BuildAlign.ShortestDecimal
