import FoldingProtocol.Text.Character

/-!
# Whole numbers in text

A numeral is digits, with at most one underscore between two of them. Which
characters are digits is a parameter: formats take those of ASCII, people those
of any script.
-/

namespace FoldingProtocol.Numeral

/-- The digits of a natural number in base ten. -/
def ofNat (n : Nat) : List Char := Nat.toDigits 10 n

/-- The digits of an integer, a minus sign before them if it is negative. -/
def ofInt : Int → List Char
  | .ofNat n => ofNat n
  | .negSucc n => '-' :: ofNat (n + 1)

/-- Reads on after a digit. -/
def readMore? (digit? : Char → Option Nat) : (soFar : Nat) → List Char → Option Nat
  | soFar, [] => some soFar
  | soFar, '_' :: c :: rest => do readMore? digit? (10 * soFar + (← digit? c)) rest
  | soFar, c :: rest => do readMore? digit? (10 * soFar + (← digit? c)) rest

/-- The number that a whole text spells, without a sign. -/
def readNat? (digit? : Char → Option Nat) : List Char → Option Nat
  | [] => none
  | c :: rest => do readMore? digit? (← digit? c) rest

/-- The number that a whole text spells, with an optional sign. -/
def readInt? (digit? : Char → Option Nat) : List Char → Option Int
  | '-' :: rest => (readNat? digit? rest).map fun n => -(n : Int)
  | '+' :: rest => (readNat? digit? rest).map Int.ofNat
  | rest => (readNat? digit? rest).map Int.ofNat

/-- The most digits a numeral of base ten may have. -/
def digitLimit : Nat := 4300

/-- Whether so many digits are more than a limit allows. -/
def exceeds (limit : Option Nat) (count : Nat) : Bool :=
  match limit with
  | none => false
  | some most => most < count

/-- What is said of a numeral with more digits than that. -/
def tooManyDigits (count : Nat) : String :=
  "Exceeds the limit (4300 digits) for integer string conversion: value has " ++
    toString count ++
    " digits; use sys.set_int_max_str_digits() to increase the limit"

/-- An integer that can be shown: it has no more digits than a numeral may have. -/
def isShowable (n : Int) : Bool := (ofNat n.natAbs).length ≤ digitLimit

/-- What is said where an integer with more digits would have to be shown. -/
def notShowable : String :=
  "Exceeds the limit (4300 digits) for integer string conversion; " ++
    "use sys.set_int_max_str_digits() to increase the limit"

/-- Why a text that people write is no integer. -/
inductive Fault where
  | unreadable
  | tooManyDigits (count : Nat)
deriving DecidableEq, Repr

/-- The integer that a text spells in the digits of any script, with white space
around it. -/
def readWritten (cs : List Char) : Except Fault Int :=
  let cs := Text.trim Text.isBlank cs
  match readInt? Text.digit? cs with
  | none => .error .unreadable
  | some n =>
    let count := (cs.filter fun c => (Text.digit? c).isSome).length
    if digitLimit < count then .error (.tooManyDigits count) else .ok n

end FoldingProtocol.Numeral
