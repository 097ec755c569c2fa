import FoldingProtocol.Toml.Scalar
import FoldingProtocol.Toml.Table

/-!
# Reading configuration files

A document is lines: a pair of a key and a value, a header that opens a table,
a header that adds a table to an array, or nothing, each with a comment or not.
Values may nest. Whether a statement is allowed depends on those before it; it
is judged once the whole statement is read, so a fault of that kind is placed
after the key of a header and after the value of a pair.
-/

namespace FoldingProtocol.Toml

/-- Past the blanks of a line. -/
def skipBlanks (cs : List Char) : List Char := cs.dropWhile isBlank

/-- Past a comment, if there is one, up to the end of its line. -/
def skipComment : (inside : Bool) → List Char → Except Fault (List Char)
  | _, [] => .ok []
  | false, c :: rest => if c = '#' then skipComment true rest else .ok (c :: rest)
  | true, c :: rest =>
    if c = '\n' then .ok (c :: rest)
    else if isControl c then .error (.grammar (.invalidChar c) (c :: rest))
    else skipComment true rest

/-- Past blanks, ends of lines and comments. -/
def skipGaps : (inside : Bool) → List Char → Except Fault (List Char)
  | _, [] => .ok []
  | false, c :: rest =>
    if isGap c then skipGaps false rest
    else if c = '#' then skipGaps true rest
    else .ok (c :: rest)
  | true, c :: rest =>
    if c = '\n' then skipGaps false rest
    else if isControl c then .error (.grammar (.invalidChar c) (c :: rest))
    else skipGaps true rest

/-! ## Keys -/

/-- A character that a key may hold without quotes. -/
def isBare (c : Char) : Bool :=
  ('a' ≤ c && c ≤ 'z') || ('A' ≤ c && c ≤ 'Z') || ('0' ≤ c && c ≤ '9') || c = '-' || c = '_'

/-- A character that a key may start with. -/
def startsKey (c : Char) : Bool := isBare c || c = '"' || c = '\''

/-- One part of a key. -/
def keyPart (cs : List Char) : Except Fault (String × List Char) :=
  match shortText cs with
  | some found => found.map fun (s, r) => (.ofList s, r)
  | none =>
    match cs.span isBare with
    | ([], _) => .error (.grammar .badKey cs)
    | (s, r) => .ok (.ofList s, r)

/-- The parts of a key with points between them, and past the blanks after it. -/
def keyFrom : (fuel : Nat) → List Char → Except Fault (Path × List Char)
  | 0, cs => .error (.grammar .badKey cs)
  | fuel + 1, cs => do
    let (part, rest) ← keyPart cs
    match skipBlanks rest with
    | '.' :: more =>
      let (parts, rest) ← keyFrom fuel (skipBlanks more)
      .ok (part :: parts, rest)
    | rest => .ok ([part], rest)

/-- A key; each of its parts takes a character. -/
def key (cs : List Char) : Except Fault (Path × List Char) := keyFrom (cs.length + 1) cs

/-! ## Values -/

/-- Whether a value has parts, which a later statement could try to reach. -/
def hasParts : Value → Bool
  | .arr _ => true
  | .obj _ => true
  | _ => false

/-- An inline table under construction. -/
structure Inline where
  table : Members
  marks : Marks

/-- Binds a key in an inline table; `rest` is what is left after its value. -/
def Inline.bind (t : Inline) (path : Path) (v : Value) (rest : List Char) :
    Except Fault Inline :=
  let last := path.getLast?.getD ""
  if t.marks.isFixed path then .error (.grammar (.fixed path) rest)
  else
    match change false (bindNew last v) path.dropLast t.table with
    | .error .noTable => .error (.grammar .overwritten rest)
    | .error .keyTaken => .error (.grammar (.duplicateKey last) rest)
    | .ok table => .ok ⟨table, if hasParts v then t.marks.fix path else t.marks⟩

mutual

/-- A value. -/
def value : (fuel : Nat) → List Char → Except Fault (Value × List Char)
  | 0, cs => .error (.grammar .badValue cs)
  | fuel + 1, cs =>
    match cs with
    | '[' :: rest => do
      match ← skipGaps false rest with
      | ']' :: after => .ok (.arr [], after)
      | more =>
        let (items, after) ← items fuel more
        .ok (.arr items, after)
    | '{' :: rest => do
      match ← skipGaps false rest with
      | '}' :: after => .ok (.obj [], after)
      | more =>
        let (table, after) ← pairs fuel ⟨[], .none⟩ more
        .ok (.obj table, after)
    | _ => scalar cs

/-- Items up to the closing bracket, one at least. -/
def items : (fuel : Nat) → List Char → Except Fault (List Value × List Char)
  | 0, cs => .error (.grammar .badValue cs)
  | fuel + 1, cs => do
    let (v, rest) ← value fuel cs
    match ← skipGaps false rest with
    | ']' :: after => .ok ([v], after)
    | ',' :: rest =>
      match ← skipGaps false rest with
      | ']' :: after => .ok ([v], after)
      | more =>
        let (vs, after) ← items fuel more
        .ok (v :: vs, after)
    | rest => .error (.grammar .openArray rest)

/-- Pairs up to the closing brace, one at least. -/
def pairs : (fuel : Nat) → Inline → List Char → Except Fault (Members × List Char)
  | 0, _, cs => .error (.grammar .badValue cs)
  | fuel + 1, t, cs => do
    let (path, rest) ← key cs
    match rest with
    | '=' :: more =>
      let (v, rest) ← value fuel (skipBlanks more)
      let t ← t.bind path v rest
      match ← skipGaps false rest with
      | '}' :: after => .ok (t.table, after)
      | ',' :: rest =>
        match ← skipGaps false rest with
        | '}' :: after => .ok (t.table, after)
        | more => pairs fuel t more
      | rest => .error (.grammar .openTable rest)
    | _ => .error (.grammar .noEquals rest)

end

/-! ## Statements -/

/-- A document under construction: its tables, the marks on them, paths that
the next header will declare, and the path of the table that is open. -/
structure Document where
  root : Members
  marks : Marks
  pending : List Path
  header : Path

namespace Document

/-- An empty document. -/
def empty : Document := ⟨[], .none, [], []⟩

/-- Declares what is pending. -/
def settle (d : Document) : Document :=
  { d with marks := d.pending.foldl Marks.declare d.marks, pending := [] }

/-- Opens the table of a header. -/
def openTable (d : Document) (path : Path) (rest : List Char) : Except Fault Document :=
  if d.marks.isDeclared path || d.marks.isFixed path then
    .error (.grammar (.declaredTwice path) rest)
  else
    match change true .ok path d.root with
    | .error _ => .error (.grammar .overwritten rest)
    | .ok root => .ok { d with root, marks := d.marks.declare path, header := path }

/-- Adds a table to the array of a header, and opens it. -/
def openArrayTable (d : Document) (path : Path) (rest : List Char) : Except Fault Document :=
  if d.marks.isFixed path then .error (.grammar (.fixed path) rest)
  else
    match change true (addTable (path.getLast?.getD "")) path.dropLast d.root with
    | .error _ => .error (.grammar .overwritten rest)
    | .ok root =>
      .ok { d with root, marks := (d.marks.release path).declare path, header := path }

/-- The paths of the tables that a key with points goes through. -/
def through (d : Document) (path : Path) : List Path :=
  (List.range (path.length - 1)).map fun n => d.header ++ path.take (n + 1)

/-- Binds a key in the open table. -/
def bind (d : Document) (path : Path) (v : Value) (rest : List Char) :
    Except Fault Document :=
  match (d.through path).find? d.marks.isDeclared with
  | some table => .error (.grammar (.redefined table) rest)
  | none =>
    let holder := d.header ++ path.dropLast
    if d.marks.isFixed holder then .error (.grammar (.fixed holder) rest)
    else
      match change true (bindNew (path.getLast?.getD "") v) holder d.root with
      | .error _ => .error (.grammar .overwritten rest)
      | .ok root =>
        .ok { d with
          root
          marks := if hasParts v then d.marks.fix (d.header ++ path) else d.marks
          pending := d.pending ++ d.through path }

end Document

/-- A pair of a key and a value. -/
def pair (d : Document) (cs : List Char) : Except Fault (Document × List Char) := do
  let (path, rest) ← key cs
  match rest with
  | '=' :: more =>
    let more := skipBlanks more
    let (v, rest) ← value (2 * more.length + 2) more
    .ok (← d.bind path v rest, rest)
  | _ => .error (.grammar .noEquals rest)

/-- A header, after its first bracket. -/
def header (d : Document) (cs : List Char) : Except Fault (Document × List Char) := do
  match cs with
  | '[' :: rest =>
    let (path, rest) ← key (skipBlanks rest)
    let d ← d.openArrayTable path rest
    match rest with
    | ']' :: ']' :: after => .ok (d, after)
    | _ => .error (.grammar .openArrayHeader rest)
  | rest =>
    let (path, rest) ← key (skipBlanks rest)
    let d ← d.openTable path rest
    match rest with
    | ']' :: after => .ok (d, after)
    | _ => .error (.grammar .openHeader rest)

/-- What a line holds before its comment. -/
def statement (d : Document) (cs : List Char) : Except Fault (Document × List Char) :=
  match cs with
  | [] => .ok (d, cs)
  | c :: rest =>
    if startsKey c then pair d cs
    else if c = '[' then header d.settle rest
    else if c = '#' || c = '\n' then .ok (d, cs)
    else .error (.grammar .badStatement cs)

/-- Lines up to the end of the text. -/
def statements : (fuel : Nat) → Document → List Char → Except Fault Members
  | 0, d, _ => .ok d.root
  | fuel + 1, d, cs => do
    let (d, rest) ← statement d (skipBlanks cs)
    match ← skipComment false (skipBlanks rest) with
    | [] => .ok d.root
    | '\n' :: more => statements fuel d more
    | rest => .error (.grammar .afterStatement rest)

/-- A text with single line ends for the pairs of return and line end. -/
def joinLineEnds : List Char → List Char
  | '\r' :: '\n' :: rest => '\n' :: joinLineEnds rest
  | c :: rest => c :: joinLineEnds rest
  | [] => []

/-- The document that a text spells; every line takes a character, but for the
last one. -/
def read (cs : List Char) : Except Fault Members :=
  statements (cs.length + 1) .empty cs

end FoldingProtocol.Toml
