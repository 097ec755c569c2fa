/-!
# Hexadecimal digits

Escapes and percent signs both carry numbers in base sixteen. Writers name the
width and the case; readers take either case.
-/

namespace FoldingProtocol.Hex

/-- The value of a hexadecimal digit of either case. -/
def value? (c : Char) : Option Nat :=
  if '0' ≤ c ∧ c ≤ '9' then some (c.toNat - '0'.toNat)
  else if 'a' ≤ c ∧ c ≤ 'f' then some (c.toNat - 'a'.toNat + 10)
  else if 'A' ≤ c ∧ c ≤ 'F' then some (c.toNat - 'A'.toNat + 10)
  else none

/-- The lower-case digit of a value below sixteen. -/
def lower (n : Nat) : Char :=
  if n < 10 then Char.ofNat ('0'.toNat + n) else Char.ofNat ('a'.toNat + (n - 10))

/-- The upper-case digit of a value below sixteen. -/
def upper (n : Nat) : Char :=
  if n < 10 then Char.ofNat ('0'.toNat + n) else Char.ofNat ('A'.toNat + (n - 10))

/-- The last `width` digits of `n`, most significant first. -/
def fixed (digit : Nat → Char) : (width : Nat) → (n : Nat) → List Char
  | 0, _ => []
  | width + 1, n => fixed digit width (n / 16) ++ [digit (n % 16)]

/-- The number spelled by hexadecimal digits, if all are. -/
def read? (cs : List Char) : Option Nat :=
  cs.foldlM (fun n c => (value? c).map (16 * n + ·)) 0

end FoldingProtocol.Hex
