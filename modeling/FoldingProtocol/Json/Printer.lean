import FoldingProtocol.Value.Literal

/-!
# Printing JSON

One printer with two layouts: everything on one line, or every item on a line
of its own, indented by two blanks for each level. The output is ASCII: any
other character is escaped, as a pair of units beyond the first plane, and so is
half a pair, where texts are stored with halves. An integer of very many digits
cannot be shown, and then nothing is printed.
-/

namespace FoldingProtocol.Json

/-- Numbers that are not finite are written by name. -/
def spelling : Binary64.Spelling := ⟨"NaN", "Infinity"⟩

/-- A unit as an escape. -/
def unitEscape (n : Nat) : List Char := '\\' :: 'u' :: Hex.fixed Hex.lower 4 n

/-- A character inside a text. -/
def escapedChar (c : Char) : List Char :=
  if c = '"' ∨ c = '\\' then ['\\', c]
  else if c = '\n' then ['\\', 'n']
  else if c = '\r' then ['\\', 'r']
  else if c = '\t' then ['\\', 't']
  else if c = '\x08' then ['\\', 'b']
  else if c = '\x0c' then ['\\', 'f']
  else if 0x20 ≤ c.toNat ∧ c.toNat < 0x7f then [c]
  else if c.toNat < 0x10000 then unitEscape c.toNat
  else
    let above := c.toNat - 0x10000
    unitEscape (0xd800 + above / 0x400) ++ unitEscape (0xdc00 + above % 0x400)

/-- A point inside a text. -/
def escapedPoint : Text.Point → List Char
  | .char c => escapedChar c
  | .half n => Text.halfEscape n

/-- A text between its quotes. -/
def quotedText (storage : Text.Storage) (s : String) : List Char :=
  '"' :: (storage.points s.toList).flatMap escapedPoint ++ ['"']

/-- A layout: one line, or a line for each item, at a depth. -/
inductive Layout where
  | line
  | indented (depth : Nat)

/-- The layout one level further in. -/
def Layout.deeper : Layout → Layout
  | .line => .line
  | .indented depth => .indented (depth + 1)

/-- What stands before the first item and before a closing bracket. -/
def Layout.lead : Layout → List Char
  | .line => []
  | .indented depth => '\n' :: List.replicate (2 * depth) ' '

/-- What stands between two items. -/
def Layout.between : Layout → List Char
  | .line => [',', ' ']
  | layout => ',' :: layout.lead

mutual

/-- A value. A moment, which no message holds, is written as a text. -/
def print (storage : Text.Storage) (layout : Layout) : Value → List Char
  | .null => ['n', 'u', 'l', 'l']
  | .bool true => ['t', 'r', 'u', 'e']
  | .bool false => ['f', 'a', 'l', 's', 'e']
  | .int n => Numeral.ofInt n
  | .float x => x.render spelling
  | .str s => quotedText storage s
  | .moment m => '"' :: m.render 'T' ++ ['"']
  | .arr [] => ['[', ']']
  | .arr (v :: rest) =>
    '[' :: layout.deeper.lead ++ print storage layout.deeper v ++
      printItems storage layout.deeper rest ++ layout.lead ++ [']']
  | .obj [] => ['{', '}']
  | .obj ((name, v) :: rest) =>
    '{' :: layout.deeper.lead ++ quotedText storage name ++ ':' :: ' ' ::
      print storage layout.deeper v ++ printMembers storage layout.deeper rest ++
      layout.lead ++ ['}']
termination_by structural v => v

/-- The items after the first. -/
def printItems (storage : Text.Storage) (layout : Layout) : List Value → List Char
  | [] => []
  | v :: rest => layout.between ++ print storage layout v ++ printItems storage layout rest
termination_by structural vs => vs

/-- The members after the first. -/
def printMembers (storage : Text.Storage) (layout : Layout) : List (String × Value) → List Char
  | [] => []
  | (name, v) :: rest =>
    layout.between ++ quotedText storage name ++ ':' :: ' ' :: print storage layout v ++
      printMembers storage layout rest
termination_by structural ms => ms

end

/-- A value on as many lines as it has parts. -/
def pretty (storage : Text.Storage) (v : Value) : String :=
  .ofList (print storage (.indented 0) v)

/-- A value on one line, if it can be shown. -/
def compact? (storage : Text.Storage) (v : Value) : Option String :=
  if v.isShowable then some (.ofList (print storage .line v)) else none

/-- A value on as many lines as it has parts, if it can be shown. -/
def pretty? (storage : Text.Storage) (v : Value) : Option String :=
  if v.isShowable then some (pretty storage v) else none

end FoldingProtocol.Json
