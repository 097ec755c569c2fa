import FoldingProtocol.Number.Binary64

/-!
# The shortest decimal that reads back

A double is printed with the fewest digits that read back as the same double.
For each count of digits the only two decimals worth trying are the neighbours
of the exact value on that decimal grid, and both are tried by reading them:
what is chosen reads back because that is how it was chosen. Of two neighbours
that both read back the nearer one wins, and an exact tie goes to the even
last digit.
-/

namespace FoldingProtocol.Binary64

/-- The exact magnitude as a whole number of units of `10 ^ -1074`. -/
def wholeDecimal (x : Binary64) : Nat := x.scaled * Nat.pow 5 1074

/-- The neighbour of `x` with `count` digits that reads back as `x`, if one
does. -/
def neighbour? (x : Binary64) (count : Nat) : Option Decimal :=
  let whole := x.wholeDecimal
  let dropped := (Nat.toDigits 10 whole).length - count
  let below := whole / Nat.pow 10 dropped
  let excess := 2 * (whole % Nat.pow 10 dropped)
  let low : Decimal := ⟨below, (dropped : Int) - 1074⟩
  let high : Decimal := ⟨below + 1, (dropped : Int) - 1074⟩
  let nearerHigh := decide (Nat.pow 10 dropped < excess) ||
    (excess == Nat.pow 10 dropped && below % 2 == 1)
  if ofDecimal x.negative high = x && (nearerHigh || ofDecimal x.negative low ≠ x) then
    some high
  else if ofDecimal x.negative low = x then some low
  else none

/-- The shortest decimal that reads back as `x`; every finite double has one
of at most seventeen digits. -/
def shortest (x : Binary64) : Decimal :=
  ((List.range 17).findSome? fun n => x.neighbour? (n + 1)).getD
    ⟨x.wholeDecimal, -1074⟩

/-! ## Layout

Where the point goes. A magnitude from `10 ^ -4` up to `10 ^ 16` is written out
with a point, anything else with an exponent of at least two digits and a sign.
-/

/-- How the values that are not finite are spelled. -/
structure Spelling where
  nan : String
  infinity : String

/-- Digits with a point after the first `point` of them. -/
def positional (digits : List Char) (point : Int) : List Char :=
  if point ≤ 0 then
    ['0', '.'] ++ List.replicate (-point).toNat '0' ++ digits
  else if digits.length ≤ point then
    digits ++ List.replicate (point.toNat - digits.length) '0' ++ ['.', '0']
  else
    digits.take point.toNat ++ '.' :: digits.drop point.toNat

/-- Digits with a point after the first one and a power of ten. -/
def scientific (digits : List Char) (power : Int) : List Char :=
  let exponent := Nat.toDigits 10 power.natAbs
  digits.take 1 ++ (if digits.length ≤ 1 then [] else '.' :: digits.drop 1) ++
    ['e', if power < 0 then '-' else '+'] ++
    List.replicate (2 - exponent.length) '0' ++ exponent

/-- A positive decimal, without zeros at its end. -/
def layout (d : Decimal) : List Char :=
  let all := Nat.toDigits 10 d.coefficient
  let point : Int := all.length + d.exponent
  let digits := (all.reverse.dropWhile (· == '0')).reverse
  if -4 < point ∧ point ≤ 16 then positional digits point
  else scientific digits (point - 1)

/-- The text of a double. -/
def render (spelling : Spelling) (x : Binary64) : List Char :=
  if x.isNaN then spelling.nan.toList
  else
    (if x.negative then ['-'] else []) ++
      (if !x.isFinite then spelling.infinity.toList
       else if x.rank = 0 then ['0', '.', '0']
       else layout x.shortest)

end FoldingProtocol.Binary64
