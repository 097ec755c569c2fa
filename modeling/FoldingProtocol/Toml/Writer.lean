import FoldingProtocol.Number.Shortest
import FoldingProtocol.Text.Hex
import FoldingProtocol.Toml.Reader

/-!
# Writing configuration files

A table is written as its plain pairs first and its tables after them, each
part in its own order, with an empty line before every table but the first
thing in the file. A table that has only tables inside needs no header of its
own. An array of tables is written with a header for each table, unless every
one of them fits on a line.

The output is made of chunks. Null has no place in a configuration file, and an
integer of very many digits is not written, so a chunk that would hold one of these
is missing, and nothing is written from there on.
-/

namespace FoldingProtocol.Toml

/-- Why a value is not written: it is null, or an integer of too many digits. -/
inductive Unwritable where
  | null
  | digits
deriving DecidableEq, Repr

/-- What is said about it. -/
def Unwritable.message : Unwritable → String
  | .null => "null in a configuration"
  | .digits => Numeral.notShowable

/-- Doubles in a file. -/
def spelling : Binary64.Spelling := ⟨"nan", "inf"⟩

/-- A character of a text. -/
def writtenChar (c : Char) : List Char :=
  if c = '"' ∨ c = '\\' then ['\\', c]
  else if c = '\n' then ['\\', 'n']
  else if c = '\r' then ['\\', 'r']
  else if c = '\x08' then ['\\', 'b']
  else if c = '\x0c' then ['\\', 'f']
  else if isControl c then '\\' :: 'u' :: Hex.fixed Hex.lower 4 c.toNat
  else [c]

/-- A text between its quotes. -/
def writtenText (s : String) : List Char := '"' :: s.toList.flatMap writtenChar ++ ['"']

/-- A key, without quotes where it needs none. -/
def writtenKey (key : String) : List Char :=
  let cs := key.toList
  if !cs.isEmpty && cs.all isBare then cs else writtenText key

/-- The blanks of a level. -/
def indent (level : Nat) : List Char := List.replicate (4 * level) ' '

/-! ## Values -/

mutual

/-- A value; an array has an item on each line, further in than the array. -/
def written (level : Nat) : Value → Except Unwritable (List Char)
  | .null => .error .null
  | .bool true => .ok "true".toList
  | .bool false => .ok "false".toList
  | .int n => if Numeral.isShowable n then .ok (Numeral.ofInt n) else .error .digits
  | .float x => .ok (x.render spelling)
  | .str s => .ok (writtenText s)
  | .moment m => .ok (m.render ' ')
  | .arr [] => .ok ['[', ']']
  | .arr (v :: rest) => do
    let first ← written (level + 1) v
    let more ← writtenItems (level + 1) rest
    .ok ('[' :: '\n' :: indent (level + 1) ++ first ++ more ++ ',' :: '\n' ::
      indent level ++ [']'])
  | .obj [] => .ok ['{', '}']
  | .obj ((key, v) :: rest) => do
    let first ← written 0 v
    let more ← writtenPairs rest
    .ok ('{' :: ' ' :: writtenKey key ++ [' ', '=', ' '] ++ first ++ more ++ [' ', '}'])
termination_by structural v => v

/-- The items after the first. -/
def writtenItems (level : Nat) : List Value → Except Unwritable (List Char)
  | [] => .ok []
  | v :: rest => do
    let first ← written level v
    let more ← writtenItems level rest
    .ok (',' :: '\n' :: indent level ++ first ++ more)
termination_by structural vs => vs

/-- The pairs after the first, on one line. -/
def writtenPairs : List (String × Value) → Except Unwritable (List Char)
  | [] => .ok []
  | (key, v) :: rest => do
    let first ← written 0 v
    let more ← writtenPairs rest
    .ok (',' :: ' ' :: writtenKey key ++ [' ', '=', ' '] ++ first ++ more)
termination_by structural ms => ms

end

/-! ## Arrays of tables -/

/-- The longest line that a table in an array may make. -/
def lineLimit : Nat := 100

/-- Whether a table fits on a line of an array, if it can be written at all. -/
def fitsLine (table : Value) : Except Unwritable Bool :=
  (written 0 table).map fun cs =>
    cs.length + 5 ≤ lineLimit && !cs.contains '\n'

/-- Whether all tables fit, which is asked up to the first that does not. -/
def allFitLine : List Value → Except Unwritable Bool
  | [] => .ok true
  | v :: rest => do if ← fitsLine v then allFitLine rest else .ok false

/-- A table. -/
def isTable : Value → Bool
  | .obj _ => true
  | _ => false

/-- Whether a value gets headers: a table does, and so does an array of tables
of which one does not fit on a line. -/
def hasHeaders : Value → Except Unwritable Bool
  | .obj _ => .ok true
  | .arr items =>
    if !items.isEmpty && items.all isTable then (allFitLine items).map (!·) else .ok false
  | _ => .ok false

/-- A value that gets headers. -/
def isHeaded (v : Value) : Bool :=
  match hasHeaders v with
  | .ok b => b
  | .error _ => false

/-- The first thing that keeps it unknown which members get headers. -/
def headersFault? (ms : Members) : Option Unwritable :=
  ms.findSome? fun (_, v) => match hasHeaders v with
    | .ok _ => none
    | .error e => some e

/-! ## Tables -/

/-- A part of the output, missing if it cannot be written. -/
abbrev Chunk := Except Unwritable (List Char)

/-- The header of a table. -/
def headerLine (name : List Char) (inArray : Bool) : List Char :=
  if inArray then ['[', '['] ++ name ++ [']', ']', '\n'] else '[' :: name ++ [']', '\n']

/-- A pair on its own lines. -/
def pairLine (key : String) (v : Value) : Chunk :=
  (written 0 v).map fun cs => writtenKey key ++ [' ', '=', ' '] ++ cs ++ ['\n']

/-- The name of a table inside another. -/
def nestedName (name : List Char) (key : String) : List Char :=
  if name.isEmpty then writtenKey key else name ++ '.' :: writtenKey key

/-- The chunks of a table, from the chunks of the tables inside it. -/
def assemble (name : List Char) (inArray : Bool) (ms : Members) (inner : List (List Chunk)) :
    List Chunk :=
  match headersFault? ms with
  | some e => [.error e]
  | none =>
    let plain := ms.filter fun (_, v) => !isHeaded v
    let header : List Chunk :=
      if inArray || (!name.isEmpty && (!plain.isEmpty || inner.isEmpty)) then
        [.ok (headerLine name inArray)]
      else []
    let own := header ++ plain.map fun (key, v) => pairLine key v
    let blank : List Chunk := [.ok ['\n']]
    match inner with
    | [] => own
    | first :: rest =>
      own ++ (if own.isEmpty then [] else blank) ++ first ++ rest.flatMap (blank ++ ·)

mutual

/-- The chunks of a value with headers, table by table. -/
def tables (name : List Char) : Value → List (List Chunk)
  | .obj ms => [assemble name false ms (tablesInside name ms)]
  | .arr items => tablesListed name items
  | _ => []
termination_by structural v => v

/-- The chunks of the tables in an array. -/
def tablesListed (name : List Char) : List Value → List (List Chunk)
  | [] => []
  | .obj ms :: rest =>
    assemble name true ms (tablesInside name ms) :: tablesListed name rest
  | _ :: rest => tablesListed name rest
termination_by structural vs => vs

/-- The chunks of the tables inside a table. -/
def tablesInside (name : List Char) : List (String × Value) → List (List Chunk)
  | [] => []
  | (key, v) :: rest =>
    (if isHeaded v then tables (nestedName name key) v else []) ++
      tablesInside name rest
termination_by structural ms => ms

end

/-- The chunks of a document. -/
def chunks (ms : Members) : List Chunk := assemble [] false ms (tablesInside [] ms)

/-- What is written of some chunks, up to the first that is missing. -/
def writtenUpTo : List Chunk → List Char
  | .ok cs :: rest => cs ++ writtenUpTo rest
  | _ => []

/-- What keeps the first missing chunk out. -/
def firstFault? : List Chunk → Option Unwritable
  | [] => none
  | .ok _ :: rest => firstFault? rest
  | .error e :: _ => some e

/-- The text of a document, and what kept a part of it out. -/
structure Written where
  text : List Char
  fault : Option Unwritable

/-- Writes a document. -/
def write (ms : Members) : Written :=
  let all := chunks ms
  ⟨writtenUpTo all, firstFault? all⟩

end FoldingProtocol.Toml
