/-!
# Binary64 numbers

Double-precision numbers as their 64 bits: a sign, eleven exponent bits and 52 fraction bits. The
bits identify a number exactly. As numbers, the two zeros are equal and a NaN equals nothing, itself
included; `Binary64.compare?` reads the order of all other values off their bits.
-/

namespace StreamSql

/-- A double-precision number, known by its bits. -/
structure Binary64 where
  bits : UInt64
  deriving DecidableEq

namespace Binary64

def isNegative (x : Binary64) : Bool := Nat.pow 2 63 ≤ x.bits.toNat

/-- The bits below the sign. On numbers of one sign they grow with the distance from zero. -/
def magnitude (x : Binary64) : Nat := x.bits.toNat % Nat.pow 2 63

def infinityMagnitude : Nat := 0x7ff * Nat.pow 2 52

def isNaN (x : Binary64) : Bool := infinityMagnitude < x.magnitude

def isInfinite (x : Binary64) : Bool := x.magnitude == infinityMagnitude

/-- A place on the integer line, in the order of the numbers themselves; both zeros are at `0`. -/
def rank (x : Binary64) : Int := if x.isNegative then -x.magnitude else x.magnitude

/-- The numeric order; `none` where a NaN takes part. -/
def compare? (x y : Binary64) : Option Ordering :=
  if x.isNaN || y.isNaN then none else some (compare x.rank y.rank)

/-- Numeric equality. -/
def equals (x y : Binary64) : Bool := x.compare? y == some .eq

/-- `n` divided by `2 ^ shift`, rounded to the nearest integer and to the even one of two. -/
def roundShift (n shift : Nat) : Nat :=
  let unit := Nat.pow 2 shift
  let quotient := n / unit
  let doubled := 2 * (n % unit)
  if unit < doubled || (doubled == unit && quotient % 2 == 1) then quotient + 1 else quotient

/--
The magnitude of the number nearest to `n`. A significand that rounds up to the next power of two
carries into the exponent, as it should. -/
def magnitudeOfNat (n : Nat) : Nat :=
  if n = 0 then 0
  else
    let exponent := n.log2
    let significand :=
      if exponent ≤ 52 then n * Nat.pow 2 (52 - exponent) else roundShift n (exponent - 52)
    (exponent + 1022) * Nat.pow 2 52 + significand

/-- The number nearest to an integer of at most 64 bits, the even one of two. -/
def ofInt (n : Int) : Binary64 :=
  let sign := if n < 0 then Nat.pow 2 63 else 0
  ⟨.ofNat (sign + magnitudeOfNat n.natAbs)⟩

end Binary64

end StreamSql
