/-
  TokenMachine.Decimal.Shortest — the shortest decimal text of a float.

  A finite float is `m · 2 ^ q`. The reals that round to it form an interval around
  it, whose ends belong to it iff `m` is even. The text has the fewest digits of any
  decimal in that interval and, of those, is nearest to the float; of two equally
  near the larger. It is always positional: there is no exponent, however many zeros
  that takes.
-/

namespace TokenMachine.Decimal

/-- The number of values that the fraction of a float has. -/
def fractionSize : Nat := 0x10000000000000

/-- The number of values that the exponent of a float has. -/
def exponentSize : Nat := 0x800

/-- The fraction `num / den` of a finite float's magnitude, and the ends of the interval of
reals that round to it over the same `den`. -/
structure Neighbourhood where
  num : Nat
  den : Nat
  low : Nat
  high : Nat
  closed : Bool
  deriving Repr

/-- The neighbourhood of the finite float with these bits, its sign aside. -/
def Neighbourhood.ofBits (bits : Nat) : Neighbourhood :=
  let fraction := bits % fractionSize
  let biased := bits / fractionSize % exponentSize
  let m := if biased = 0 then fraction else fraction + fractionSize
  let q : Int := (max biased 1 : Nat) - 1075
  -- In quarters of the last place: below a power of two the floats lie twice as dense.
  let below := if fraction = 0 ∧ 1 < biased then 1 else 2
  let scale := Nat.pow 2 (q - 2).toNat
  { num := 4 * m * scale
    den := Nat.pow 2 (2 - q).toNat
    low := (4 * m - below) * scale
    high := (4 * m + 2) * scale
    closed := m % 2 = 0 }

/-- Whether `n / d` lies in the interval. -/
def Neighbourhood.holds (v : Neighbourhood) (n d : Nat) : Bool :=
  let scaled := n * v.den
  if v.closed then v.low * d ≤ scaled && scaled ≤ v.high * d
  else v.low * d < scaled && scaled < v.high * d

/-- The point of the grid of multiples of `10 ^ k` that is in the interval: of the float's two
neighbours on the grid the nearer, of two equally near the upper. -/
def Neighbourhood.onGrid? (v : Neighbourhood) (k : Int) : Option Nat :=
  let up := Nat.pow 10 k.toNat
  let down := Nat.pow 10 (-k).toNat
  let n := v.num * down / (v.den * up)
  let rest := v.num * down % (v.den * up)
  let lower := v.holds (n * up) down
  let upper := v.holds ((n + 1) * up) down
  if upper && (!lower || v.den * up ≤ 2 * rest) then some (n + 1)
  else if lower then some n
  else none

def digitCount (n : Nat) : Nat := (Nat.repr n).length

/-- The least `k` with `num / den < 10 ^ k`. -/
def Neighbourhood.magnitude (v : Neighbourhood) : Int :=
  if v.den ≤ v.num then digitCount (v.num / v.den)
  else 1 - (digitCount ((v.den - 1) / v.num) : Int)

/-- The digits on the coarsest grid that meets the interval, and that grid's exponent. The next
power of ten may be in the interval itself; seventeen digits always tell a float from its
neighbours. -/
def Neighbourhood.digits (v : Neighbourhood) : Nat × Int :=
  let k := v.magnitude
  ((List.range 18).findSome? fun n : Nat =>
    (v.onGrid? (k - n)).map fun d => (d, k - (n : Int))).getD (0, 0)

/-- `digits · 10 ^ exponent` without an exponent. -/
def positional (digits : Nat) (exponent : Int) : String :=
  let ds := (Nat.repr digits).toList
  let zeros (n : Nat) := List.replicate n '0'
  if 0 ≤ exponent then String.ofList (ds ++ zeros exponent.toNat)
  else
    let places := (-exponent).toNat
    let padded := zeros (places + 1 - ds.length) ++ ds
    let whole := padded.length - places
    String.ofList (padded.take whole ++ '.' :: padded.drop whole)

def shortest (x : Float) : String :=
  if x.isNaN then "NaN"
  else
    let bits := x.toBits.toNat
    let magnitude := bits % (fractionSize * exponentSize)
    let sign := if bits = magnitude then "" else "-"
    let text :=
      if magnitude / fractionSize = exponentSize - 1 then "inf"
      else if magnitude = 0 then "0"
      else
        let (digits, exponent) := (Neighbourhood.ofBits magnitude).digits
        positional digits exponent
    sign ++ text

end TokenMachine.Decimal
