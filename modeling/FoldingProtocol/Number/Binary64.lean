/-!
# Doubles, counted from zero

Every finite double is a whole multiple of `2 ^ -1074`, and the doubles of one
sign, taken in order, are numbered without a gap: zero has rank `0`, the least
positive double rank `1`, infinity rank `infinityRank`. A double is held as its
sign and its rank, so equality of doubles is equality of two plain fields, and
`scaled` recovers the magnitude as a natural number of units. Reading a ratio
is one rounded division, and no other arithmetic on doubles is needed: this
library compares, truncates, reads and prints them, and never adds them.
-/

namespace FoldingProtocol

/-- A double: its sign, and its place among the doubles of that sign. Ranks
above `infinityRank` are not numbers. -/
structure Binary64 where
  negative : Bool
  rank : Nat
deriving DecidableEq, Repr

namespace Binary64

/-- How many doubles share one step, `2 ^ 52`. -/
def runLength : Nat := Nat.pow 2 52

/-- The rank of infinity, one past the greatest finite double. -/
def infinityRank : Nat := 2047 * runLength

/-- The one value that is not a number which reading can give. -/
def nan : Binary64 := ⟨false, infinityRank + 1⟩

/-- Infinity of either sign. -/
def infinity (negative : Bool) : Binary64 := ⟨negative, infinityRank⟩

/-- Not a number: beyond infinity in rank. -/
def isNaN (x : Binary64) : Bool := decide (infinityRank < x.rank)

/-- A number below infinity. -/
def isFinite (x : Binary64) : Bool := decide (x.rank < infinityRank)

/-- The magnitude in units of `2 ^ -1074`. Below `2 ^ 52` the rank is the count
of units; above, each run of `2 ^ 52` ranks doubles the step. -/
def scaled (x : Binary64) : Nat :=
  if x.rank < runLength then x.rank
  else (runLength + x.rank % runLength) * Nat.pow 2 (x.rank / runLength - 1)

/-- How many units make one. -/
def unitsPerOne : Nat := Nat.pow 2 1074

/-- The whole part, toward zero. -/
def truncate (x : Binary64) : Int :=
  let whole : Int := (x.scaled / unitsPerOne : Nat)
  if x.negative then -whole else whole

/-- Finite and without a fractional part. -/
def isIntegral (x : Binary64) : Bool :=
  x.isFinite && x.scaled % unitsPerOne == 0

/-- Equality as numbers: the zeros are equal, and what is not a number equals
nothing. -/
def same (x y : Binary64) : Bool :=
  !x.isNaN && !y.isNaN && x.rank == y.rank && (x.negative == y.negative || x.rank == 0)

/-- Equality of a double and an integer as numbers, without rounding either. -/
def sameInt (x : Binary64) (n : Int) : Bool := x.isIntegral && x.truncate == n

/-! ## Rounding

The nearest double to `num / den` units. With `p` doublings the quotient falls
between `2 ^ 52` and `2 ^ 53`, and the rank is then `p` full runs and the
rounded quotient; a quotient that rounds up to `2 ^ 53` lands on the first rank
of the next run, which is where it belongs. -/

/-- The whole number nearest to `num / den`, a half going to the even one. -/
def roundDiv (num den : Nat) : Nat :=
  let quotient := num / den
  let twice := 2 * (num % den)
  if twice < den then quotient
  else if den < twice then quotient + 1
  else quotient + quotient % 2

/-- The rank of the double nearest to `num / den` units. -/
def nearestRank (num den : Nat) : Nat :=
  let p := (num / den).log2 - 52
  p * runLength + roundDiv num (den * Nat.pow 2 p)

/-- The double nearest to `num / den`; past the greatest finite double it is
infinity. -/
def ofRatio (negative : Bool) (num den : Nat) : Binary64 :=
  ⟨negative, min infinityRank (nearestRank (num * unitsPerOne) den)⟩

end Binary64

/-- A decimal magnitude, `coefficient * 10 ^ exponent`. -/
structure Decimal where
  coefficient : Nat
  exponent : Int
deriving DecidableEq, Repr

/-- The double nearest to a signed decimal. A magnitude of at least `10 ^ 310`
is infinity and one below `10 ^ -330` is zero whatever its digits, so no power
of ten is taken for an exponent out of that window: `2 ^ 3 < 10` bounds the
coefficient by its length in bits. -/
def Binary64.ofDecimal (negative : Bool) (d : Decimal) : Binary64 :=
  if d.coefficient = 0 then ⟨negative, 0⟩
  else if 310 ≤ d.exponent then .infinity negative
  else if d.exponent + ((d.coefficient.log2 + 1) / 3 + 1 : Nat) < -330 then ⟨negative, 0⟩
  else if 0 ≤ d.exponent then .ofRatio negative (d.coefficient * Nat.pow 10 d.exponent.toNat) 1
  else .ofRatio negative d.coefficient (Nat.pow 10 (-d.exponent).toNat)

end FoldingProtocol
