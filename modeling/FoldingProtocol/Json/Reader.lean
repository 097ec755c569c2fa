import FoldingProtocol.Text.Hex
import FoldingProtocol.Text.Numeral
import FoldingProtocol.Text.Position
import FoldingProtocol.Text.Storage
import FoldingProtocol.Value.Basic

/-!
# Reading JSON

The reader goes through the text once. Each part of it takes what is left of
the text and gives a value and what is left after that; a fault keeps what was
left at its place, from which line and column follow. Beyond the standard, the
three numbers that are not finite may be named, and of a repeated member the
last value counts. How many digits an integer may have is a parameter, and so is
how texts are stored: the standard sets no limit, and what is read from files has
one; and a half of a pair is read where texts are marked, and a fault where they
are plain.

Every step below takes at least one character between two visits of `value`,
so twice the length of the text bounds the depth of the recursion.
-/

namespace FoldingProtocol.Json

/-- What can be wrong with a text. -/
inductive Problem where
  | expectingValue
  | expectingName
  | expectingColon
  | expectingComma
  | extraData
  | unterminatedText
  | controlCharacter
  | badEscape
  | badUnicodeEscape
  | byteOrderMark
deriving DecidableEq, Repr

/-- Why a text was not read: it breaks the grammar where `rest` was left, it holds
a numeral of more digits than are accepted, or it spells half a pair that has no
place. -/
inductive Fault where
  | grammar (problem : Problem) (rest : List Char)
  | digits (count : Nat)
  | half (rest : List Char)

/-- What a reader accepts: integers of so many digits, and texts that can be stored
in its way. -/
structure Dialect where
  limit : Option Nat
  storage : Text.Storage

/-- What is read from files. -/
def Dialect.files : Dialect := ⟨some Numeral.digitLimit, .marked⟩

/-- The wording of a problem. -/
def Problem.message : Problem → String
  | .expectingValue => "Expecting value"
  | .expectingName => "Expecting property name enclosed in double quotes"
  | .expectingColon => "Expecting ':' delimiter"
  | .expectingComma => "Expecting ',' delimiter"
  | .extraData => "Extra data"
  | .unterminatedText => "Unterminated string starting at"
  | .controlCharacter => "Invalid control character at"
  | .badEscape => "Invalid \\escape"
  | .badUnicodeEscape => "Invalid \\uXXXX escape"
  | .byteOrderMark => "Unexpected UTF-8 BOM (decode using utf-8-sig)"

/-- The blanks of the grammar. -/
def isSpace (c : Char) : Bool := c = ' ' || c = '\t' || c = '\n' || c = '\r'

/-- Past the blanks. -/
def skip (cs : List Char) : List Char := cs.dropWhile isSpace

/-! ## Texts -/

/-- The character of a one-letter escape. -/
def escaped? : Char → Option Char
  | '"' => some '"'
  | '\\' => some '\\'
  | '/' => some '/'
  | 'b' => some '\x08'
  | 'f' => some '\x0c'
  | 'n' => some '\n'
  | 'r' => some '\r'
  | 't' => some '\t'
  | _ => none

/-- A unit that opens a pair. -/
def isHigh (n : Nat) : Bool := 0xd800 ≤ n && n < 0xdc00

/-- A unit that closes a pair. -/
def isLow (n : Nat) : Bool := 0xdc00 ≤ n && n < 0xe000

/-- The point of a unit that stands alone. -/
def pointOfUnit (n : Nat) : Text.Point :=
  if h : 0xd800 ≤ n ∧ n < 0xe000 then .half ⟨n - 0xd800, by omega⟩ else .char (.ofNat n)

/-- The character of a pair. -/
def charOfPair (high low : Nat) : Char :=
  .ofNat (0x10000 + (high - 0xd800) * 0x400 + (low - 0xdc00))

/-- What a text is made of: characters, and units that stand in escapes. -/
inductive Piece where
  | char (c : Char)
  | unit (n : Nat)

/-- The points of some pieces: two units that make a pair are one. -/
def join : List Piece → List Text.Point
  | [] => []
  | .char c :: rest => .char c :: join rest
  | .unit high :: .unit low :: rest =>
    if isHigh high && isLow low then .char (charOfPair high low) :: join rest
    else pointOfUnit high :: join (.unit low :: rest)
  | .unit n :: rest => pointOfUnit n :: join rest

/-- The pieces up to the closing quote; `opening` is what was left at the
opening one. A unit that ends the whole text counts as cut short. -/
def pieces (opening : List Char) : List Char → Except Fault (List Piece × List Char)
  | [] => .error (.grammar .unterminatedText opening)
  | '"' :: rest => .ok ([], rest)
  | ['\\'] => .error (.grammar .unterminatedText opening)
  | '\\' :: 'u' :: a :: b :: c :: d :: rest =>
    match Hex.read? [a, b, c, d], rest.isEmpty with
    | some n, false => (pieces opening rest).map fun (ps, r) => (.unit n :: ps, r)
    | _, _ => .error (.grammar .badUnicodeEscape ('u' :: a :: b :: c :: d :: rest))
  | '\\' :: 'u' :: rest => .error (.grammar .badUnicodeEscape ('u' :: rest))
  | '\\' :: c :: rest =>
    match escaped? c with
    | none => .error (.grammar .badEscape ('\\' :: c :: rest))
    | some e => (pieces opening rest).map fun (ps, r) => (.char e :: ps, r)
  | c :: rest =>
    if c.toNat < 0x20 then .error (.grammar .controlCharacter (c :: rest))
    else (pieces opening rest).map fun (ps, r) => (.char c :: ps, r)

/-- A text up to its closing quote, as it is stored. -/
def text (storage : Text.Storage) (opening rest : List Char) :
    Except Fault (List Char × List Char) := do
  let (ps, rest) ← pieces opening rest
  match storage.store? (join ps) with
  | some cs => .ok (cs, rest)
  | none => .error (.half opening)

/-! ## Numbers -/

/-- A digit. -/
def isDigit (c : Char) : Bool := '0' ≤ c && c ≤ '9'

/-- The number that digits spell. -/
def ofDigits (ds : List Char) : Nat :=
  ds.foldl (fun n c => 10 * n + (c.toNat - '0'.toNat)) 0

/-- The digits before the point: a zero alone, or digits from another one on. -/
def whole? : List Char → Option (List Char × List Char)
  | [] => none
  | c :: rest =>
    if c = '0' then some (['0'], rest)
    else if isDigit c then some ((c :: rest).span isDigit)
    else none

/-- The digits after a point; without any the point is not taken. -/
def fraction (cs : List Char) : List Char × List Char :=
  match cs with
  | '.' :: rest =>
    match rest.span isDigit with
    | ([], _) => ([], cs)
    | taken => taken
  | _ => ([], cs)

/-- An exponent; without digits nothing is taken. -/
def exponent (cs : List Char) : Option Int × List Char :=
  match cs with
  | c :: rest =>
    if c = 'e' ∨ c = 'E' then
      let (sign, digits) : Int × List Char := match rest with
        | '-' :: more => (-1, more)
        | '+' :: more => (1, more)
        | more => (1, more)
      match digits.span isDigit with
      | ([], _) => (none, cs)
      | (ds, after) => (some (sign * ofDigits ds), after)
    else (none, cs)
  | [] => (none, cs)

/-- A number, which is an integer unless it has a fraction or an exponent. -/
def number (limit : Option Nat) (cs : List Char) : Except Fault (Value × List Char) :=
  let (negative, body) := match cs with
    | '-' :: rest => (true, rest)
    | _ => (false, cs)
  match whole? body with
  | none => .error (.grammar .expectingValue cs)
  | some (whole, rest) =>
    let (places, rest) := fraction rest
    let (power?, rest) := exponent rest
    if places.isEmpty && power?.isNone then
      if Numeral.exceeds limit whole.length then .error (.digits whole.length)
      else
        let n : Int := ofDigits whole
        .ok (.int (if negative then -n else n), rest)
    else
      let d : Decimal := ⟨ofDigits (whole ++ places), power?.getD 0 - places.length⟩
      .ok (.float (.ofDecimal negative d), rest)

/-! ## Values -/

/-- A word and its meaning. -/
def words : List (List Char × Value) := [
  (['n', 'u', 'l', 'l'], .null),
  (['t', 'r', 'u', 'e'], .bool true),
  (['f', 'a', 'l', 's', 'e'], .bool false),
  (['N', 'a', 'N'], .float .nan),
  (['I', 'n', 'f', 'i', 'n', 'i', 't', 'y'], .float (.infinity false)),
  (['-', 'I', 'n', 'f', 'i', 'n', 'i', 't', 'y'], .float (.infinity true))]

/-- A word, if the text goes on with one. -/
def word? (cs : List Char) : Option (Value × List Char) :=
  words.findSome? fun (w, v) =>
    if w.isPrefixOf cs then some (v, cs.drop w.length) else none

/-- A value without parts. -/
def scalar (limit : Option Nat) (cs : List Char) : Except Fault (Value × List Char) :=
  match word? cs with
  | some found => .ok found
  | none => number limit cs

mutual

/-- A value, with no blank before it. -/
def value (d : Dialect) : (fuel : Nat) → List Char → Except Fault (Value × List Char)
  | 0, cs => .error (.grammar .expectingValue cs)
  | fuel + 1, cs =>
    match cs with
    | '"' :: rest => (text d.storage cs rest).map fun (s, r) => (.str (.ofList s), r)
    | '[' :: rest =>
      match skip rest with
      | ']' :: after => .ok (.arr [], after)
      | more => (items d fuel more).map fun (vs, r) => (.arr vs, r)
    | '{' :: rest =>
      match skip rest with
      | '}' :: after => .ok (.obj [], after)
      | more => (members d fuel more).map fun (ms, r) => (.obj (Members.putAll [] ms), r)
    | _ => scalar d.limit cs

/-- Items up to the closing bracket, one at least. -/
def items (d : Dialect) : (fuel : Nat) → List Char →
    Except Fault (List Value × List Char)
  | 0, cs => .error (.grammar .expectingValue cs)
  | fuel + 1, cs => do
    let (v, rest) ← value d fuel cs
    match skip rest with
    | ']' :: after => .ok ([v], after)
    | ',' :: after =>
      let (vs, rest) ← items d fuel (skip after)
      .ok (v :: vs, rest)
    | more => .error (.grammar .expectingComma more)

/-- Members up to the closing brace, one at least. -/
def members (d : Dialect) : (fuel : Nat) → List Char →
    Except Fault (List (String × Value) × List Char)
  | 0, cs => .error (.grammar .expectingValue cs)
  | fuel + 1, cs => do
    match cs with
    | '"' :: rest =>
      let (name, rest) ← text d.storage cs rest
      match skip rest with
      | ':' :: rest =>
        let (v, rest) ← value d fuel (skip rest)
        match skip rest with
        | '}' :: after => .ok ([(.ofList name, v)], after)
        | ',' :: after =>
          let (ms, rest) ← members d fuel (skip after)
          .ok ((.ofList name, v) :: ms, rest)
        | more => .error (.grammar .expectingComma more)
      | more => .error (.grammar .expectingColon more)
    | _ => .error (.grammar .expectingName cs)

end

/-- The value that a whole text spells in a dialect. -/
def readIn (d : Dialect) (cs : List Char) : Except Fault Value :=
  match cs with
  | '\uFEFF' :: _ => .error (.grammar .byteOrderMark cs)
  | _ => do
    let (v, rest) ← value d (2 * cs.length + 2) (skip cs)
    match skip rest with
    | [] => .ok v
    | more => .error (.grammar .extraData more)

/-- The value that the whole text of a file spells. -/
def read (cs : List Char) : Except Fault Value := readIn .files cs

/-- A message about a place in a text. -/
def placed (whole rest : List Char) (message : String) : String :=
  let place := Text.Position.ofRest whole rest
  message ++ ": line " ++ toString place.line ++ " column " ++
    toString place.column ++ " (char " ++ toString place.offset ++ ")"

/-- What is said about a fault in a text. -/
def Fault.message (whole : List Char) : Fault → String
  | .grammar problem rest => placed whole rest problem.message
  | .digits count => Numeral.tooManyDigits count
  | .half rest => placed whole rest "Half of a pair in string starting at"

end FoldingProtocol.Json
