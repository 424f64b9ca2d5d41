import StreamSql.Binary64

/-!
# Decimal text of binary64 numbers

A number is written with the fewest decimal digits that read back as the same number. Among the
decimal grids `10 ^ k`, take the coarsest with a point in the interval of reals that round to the
number; of its points there, the one nearest to the number is written, and of two equally near the
upper one. The digits are laid out positionally, whatever the size of the number.
-/

namespace StreamSql.Binary64

/--
The interval of reals that round to a number, as numerators over the common denominator `unit`, with
the number itself at `value`. -/
structure Span where
  low : Nat
  value : Nat
  high : Nat
  unit : Nat
  closed : Bool

namespace Span

/-- The same interval measured in steps of `10 ^ k`. -/
def inStepsOf (s : Span) (k : Int) : Span :=
  let up := Nat.pow 10 (-k).toNat
  let down := Nat.pow 10 k.toNat
  { s with low := s.low * up, value := s.value * up, high := s.high * up, unit := s.unit * down }

/-- Whether the whole number `point` lies in the interval. -/
def holds (s : Span) (point : Nat) : Bool :=
  let p := point * s.unit
  if s.closed then s.low ≤ p && p ≤ s.high else s.low < p && p < s.high

/-- The whole number in the interval that is nearest to its value, the upper one of two. -/
def nearest? (s : Span) : Option Nat :=
  let below := s.value / s.unit
  match s.holds below, s.holds (below + 1) with
  | true, true => if s.unit ≤ 2 * (s.value % s.unit) then some (below + 1) else some below
  | true, false => some below
  | false, true => some (below + 1)
  | false, false => none

end Span

/-- The significand and the power of two of a finite number: it is `m * 2 ^ q`. -/
def significand (x : Binary64) : Nat × Int :=
  let exponent : Nat := x.magnitude / Nat.pow 2 52
  let fraction : Nat := x.magnitude % Nat.pow 2 52
  if exponent = 0 then (fraction, -1074) else (fraction + Nat.pow 2 52, (exponent : Int) - 1075)

/--
The reals that round to a finite number, without its sign. The gap below a power of two is half as
wide as the gap above it. The ends round to the number exactly when its significand is even. -/
def span (x : Binary64) : Span :=
  let (m, q) := x.significand
  let implicit := Nat.pow 2 52
  let below := if x.magnitude % implicit = 0 && implicit < x.magnitude then 1 else 2
  let up := Nat.pow 2 (q - 2).toNat
  { low := (4 * m - below) * up
    value := 4 * m * up
    high := (4 * m + 2) * up
    unit := Nat.pow 2 (2 - q).toNat
    closed := m % 2 == 0 }

/-- A decimal number `digits * 10 ^ exponent`. -/
structure Decimal where
  digits : Nat
  exponent : Int
  deriving DecidableEq

/-- The first hit on the grids `10 ^ k`, `10 ^ (k - 1)`, and so on. -/
def searchGrids (s : Span) (k : Int) : Nat → Decimal
  | 0 => ⟨0, 0⟩
  | steps + 1 =>
    match (s.inStepsOf k).nearest? with
    | some digits => ⟨digits, k⟩
    | none => searchGrids s (k - 1) steps

/-- The fewest digits that read back as `x`, for a finite `x` other than zero, without its sign. The
search ends at the latest on the grid that `x` itself is on. -/
def shortest (x : Binary64) : Decimal :=
  let s := x.span
  let start : Int := (Nat.toDigits 10 (s.high / s.unit)).length
  searchGrids s start (start.toNat + 1075)

/-- The positional layout, with a point only where there is a fraction. -/
def Decimal.text (d : Decimal) : String :=
  let digits := Nat.toDigits 10 d.digits
  let whole := digits.length + d.exponent
  .ofList <|
    if 0 ≤ d.exponent then digits ++ List.replicate d.exponent.toNat '0'
    else if 0 < whole then digits.take whole.toNat ++ '.' :: digits.drop whole.toNat
    else '0' :: '.' :: List.replicate (-whole).toNat '0' ++ digits

def text (x : Binary64) : String :=
  if x.isNaN then "NaN"
  else
    let size :=
      if x.isInfinite then "inf" else if x.magnitude = 0 then "0" else x.shortest.text
    if x.isNegative then "-" ++ size else size

end StreamSql.Binary64
