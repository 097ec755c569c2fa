import FoldingProtocol.Issue
import FoldingProtocol.Text.Numeral
import FoldingProtocol.Text.Split

/-!
# Integers that texts spell

A plain numeral is digits, possibly after a minus sign, and its first digit is
zero only if it has no other. Such a text is read as it stands. Any other text
is tidied up first, and then has to be a plain numeral.

Tidying takes away, in this order: blanks around the text, a plus sign, zeros
before the number, a point with zeros after it, and single underscores. It is
generous in two ways. Among the zeros before the number underscores may stand
in any count. And a minus sign ends these zeros as a digit would, so that they
may come before a negative number; but no zeros may follow the sign.
-/

namespace FoldingProtocol.Decoder

/-- The integer of a plain numeral. It may not be longer than the limit, its sign
included, and this is looked at before what follows it. -/
def readPlain (cs : List Char) : Except Issue.Kind Int :=
  let unsigned := match cs with
    | '-' :: rest => rest
    | _ => cs
  let (digits, after) := unsigned.span fun c => (Text.asciiDigit? c).isSome
  match digits with
  | '0' :: _ :: _ => .error .unreadableInteger
  | _ =>
    if Numeral.digitLimit < cs.length - after.length then .error .oversizedInteger
    else if !after.isEmpty then .error .unreadableInteger
    else
      match Numeral.readInt? Text.asciiDigit? cs with
      | some n => .ok n
      | none => .error .unreadableInteger

/-! ## Tidying -/

/-- A text without a plus sign before it, behind which no minus sign may stand. -/
def withoutPlus : List Char → Option (List Char)
  | '+' :: '-' :: _ => none
  | '+' :: rest => some rest
  | cs => some cs

/-- A character with which a number starts where zeros end. -/
def startsNumber (c : Char) : Bool := ('1' ≤ c && c ≤ '9') || c == '-'

/-- The number after zeros and underscores, of which `last` was the last one. If
it has no other digit before its point or its end, that one stays. -/
def afterZeros (last : Char) : List Char → Option (List Char)
  | [] => some [last]
  | c :: rest =>
    if c = '0' ∨ c = '_' then afterZeros c rest
    else if startsNumber c then some (c :: rest)
    else if c = '.' then some (last :: c :: rest)
    else none

/-- A text without zeros before the number. -/
def withoutLeadingZeros : List Char → Option (List Char)
  | [] => none
  | c :: rest =>
    if c = '0' then afterZeros c rest
    else if startsNumber c then some (c :: rest)
    else none

/-- The part of a numeral before its point, if only zeros follow the point. -/
def withoutZeroPlaces (cs : List Char) : List Char :=
  match cs.span (· ≠ '.') with
  | (whole, '.' :: places) =>
    if !places.isEmpty && places.all (· == '0') then whole else cs
  | _ => cs

/-- A text without its underscores, each of which has to stand between two other
characters. -/
def withoutUnderscores (cs : List Char) : Option (List Char) :=
  let parts := Text.splitAt '_' cs
  if parts.any List.isEmpty then none else some parts.flatten

/-- A text tidied up; `none` if it cannot be. -/
def tidied? (cs : List Char) : Option (List Char) := do
  let unsigned ← withoutPlus (Text.trim Text.isBlank cs)
  let number ← withoutLeadingZeros unsigned
  withoutUnderscores (withoutZeroPlaces number)

/-- The integer that a text spells. -/
def readInteger (s : String) : Except Issue.Kind Int :=
  match readPlain s.toList with
  | .error .unreadableInteger =>
    match tidied? s.toList with
    | some cs => readPlain cs
    | none => .error .unreadableInteger
  | result => result

end FoldingProtocol.Decoder
