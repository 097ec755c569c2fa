import FoldingProtocol.Text.Hex

/-!
# How texts are stored

A text is made of characters. An escape of JSON can also spell one half of a pair where the
other half is missing. Such a half is no character, but a text keeps it, and it is written
as an escape again where escapes are written.

Texts are stored as lists of characters. Plain ones stand for themselves and have no place
for a half. Marked ones have: a mark and the character that stands for the half. The mark
is a character too, so where it is meant it is stored twice.
-/

namespace FoldingProtocol.Text

/-- What a text is made of: a character, or a half of a pair, counted from the first one. -/
inductive Point where
  | char (c : Char)
  | half (n : Fin 0x800)
deriving DecidableEq, Repr

/-- How texts are stored. -/
inductive Storage where
  | plain
  | marked
deriving DecidableEq, Repr

/-- The code of a half. -/
def halfCode (n : Fin 0x800) : Nat := 0xd800 + n

/-- A half that opens a pair. -/
def Point.isHigh : Point → Bool
  | .char _ => false
  | .half n => halfCode n < 0xdc00

/-- A half that closes a pair. -/
def Point.isLow : Point → Bool
  | .char _ => false
  | .half n => 0xdc00 ≤ halfCode n

/-- A half as an escape. -/
def halfEscape (n : Fin 0x800) : List Char := '\\' :: 'u' :: Hex.fixed Hex.lower 4 (halfCode n)

/-- A point as it is told: a half is told as an escape. -/
def Point.told : Point → List Char
  | .char c => [c]
  | .half n => halfEscape n

/-! ## Marks -/

/-- The mark, which is no character of any script. -/
def mark : Char := '\uFFFF'

/-- The character that stands for a half behind a mark. -/
def halfChar (n : Fin 0x800) : Char := .ofNat (0xe000 + n)

/-- The half that a character stands for. -/
def half? (c : Char) : Option (Fin 0x800) :=
  if h : 0xe000 ≤ c.toNat ∧ c.toNat < 0xe800 then some ⟨c.toNat - 0xe000, by omega⟩ else none

/-- A point as it is marked. -/
def Point.marked : Point → List Char
  | .char c => if c = mark then [mark, mark] else [c]
  | .half n => [mark, halfChar n]

/-- The points of a marked text. -/
def markedPoints : List Char → List Point
  | [] => []
  | [c] => [.char c]
  | c :: d :: rest =>
    if c = mark then
      (match half? d with
        | some n => .half n
        | none => .char d) :: markedPoints rest
    else .char c :: markedPoints (d :: rest)

/-! ## Texts -/

namespace Storage

/-- A point as it is stored, if it has a place. -/
def point? : Storage → Point → Option (List Char)
  | .plain, .char c => some [c]
  | .plain, .half _ => none
  | .marked, p => some p.marked

/-- A text as it is stored, if all of it has a place. -/
def store? (s : Storage) : List Point → Option (List Char)
  | [] => some []
  | p :: rest => do return (← s.point? p) ++ (← store? s rest)

/-- The points of a stored text. -/
def points : Storage → List Char → List Point
  | .plain, cs => cs.map .char
  | .marked, cs => markedPoints cs

/-- A stored text in characters alone, if it has no halves. -/
def plainly? : Storage → List Char → Option (List Char)
  | .plain, cs => some cs
  | .marked, cs => plain.store? (markedPoints cs)

/-- A stored text in characters, with halves as escapes. -/
def told : Storage → List Char → List Char
  | .plain, cs => cs
  | .marked, cs => (markedPoints cs).flatMap Point.told

end Storage

end FoldingProtocol.Text
