import FoldingProtocol.Text.Utf8
import FoldingProtocol.Value.Literal

/-!
# Issues

What is wrong with a value that was to be decoded: the kind of the issue, the
way from the outermost value to the offending one, and that one itself. A
report lists all issues of one value under the name of what was expected. Where the
texts of the value are marked, one that has half a pair is no text to read a number
from, and it is reported so.
-/

namespace FoldingProtocol

/-- A step from a value to a part of it. -/
inductive Step where
  | member (name : String)
  | index (n : Nat)
deriving DecidableEq, Repr

/-- The text of a step. -/
def Step.text : Step → String
  | .member name => name
  | .index n => toString n

/-- What can be wrong with a value. -/
inductive Issue.Kind where
  | missing
  | notObject (model : String)
  | notList
  | notText
  | tornText
  | notInteger
  | unreadableInteger
  | fractionalInteger
  | oversizedInteger
  | notFinite
  | negative
  | notFlag
  | unreadableFlag
  | notKnownKind
  | notShowable
deriving DecidableEq, Repr

namespace Issue.Kind

/-- The code of a kind of issue. -/
def code : Kind → String
  | .missing => "missing"
  | .notObject _ => "model_type"
  | .notList => "list_type"
  | .notText => "string_type"
  | .tornText => "string_unicode"
  | .notInteger => "int_type"
  | .unreadableInteger => "int_parsing"
  | .fractionalInteger => "int_from_float"
  | .oversizedInteger => "int_parsing_size"
  | .notFinite => "finite_number"
  | .negative => "greater_than_equal"
  | .notFlag => "bool_type"
  | .unreadableFlag => "bool_parsing"
  | .notKnownKind => "enum"
  | .notShowable => "value_error"

/-- The wording of a kind of issue. -/
def message : Kind → String
  | .missing => "Field required"
  | .notObject model => "Input should be a valid dictionary or instance of " ++ model
  | .notList => "Input should be a valid list"
  | .notText => "Input should be a valid string"
  | .tornText =>
    "Input should be a valid string, unable to parse raw data as a unicode string"
  | .notInteger => "Input should be a valid integer"
  | .unreadableInteger =>
    "Input should be a valid integer, unable to parse string as an integer"
  | .fractionalInteger =>
    "Input should be a valid integer, got a number with a fractional part"
  | .oversizedInteger =>
    "Unable to parse input string as an integer, exceeded maximum size"
  | .notFinite => "Input should be a finite number"
  | .negative => "Input should be greater than or equal to 0"
  | .notFlag => "Input should be a valid boolean"
  | .unreadableFlag => "Input should be a valid boolean, unable to interpret input"
  | .notKnownKind => "Input should be 'comment', 'imports' or 'region'"
  | .notShowable => "Value error, " ++ Numeral.notShowable

end Issue.Kind

/-- Something wrong with a value: what it is, where, and the value there. -/
structure Issue where
  kind : Issue.Kind
  path : List Step
  input : Value

namespace Issue

/-- The issue as seen from one step further out. -/
def under (step : Step) (issue : Issue) : Issue :=
  { issue with path := step :: issue.path }

/-- The characters whose bytes all lie within the first `room` bytes. -/
def fitting : (room : Nat) → List Char → List Char
  | _, [] => []
  | room, c :: rest =>
    let size := (Utf8.encodeChar c).length
    if size ≤ room then c :: fitting (room - size) rest else []

/-- A text of at most fifty bytes; of a longer one the first twenty-five and
the last twenty-four, as far as they hold whole characters. -/
def excerpt (cs : List Char) : List Char :=
  if (Utf8.encode cs).length ≤ 50 then cs
  else fitting 25 cs ++ ['.', '.', '.'] ++ (fitting 24 cs.reverse).reverse

/-- A value as a report shows it, or a word for one that cannot be shown. -/
def shownInput (storage : Text.Storage) (input : Value) : List Char :=
  if input.isShowable then excerpt (input.literalIn storage)
  else ("<unprintable " ++ input.typeName ++ " object>").toList

/-- The kind of an issue as it is reported: of a text with half a pair nothing else is
said. -/
def reportedKind (storage : Text.Storage) (issue : Issue) : Kind :=
  match issue.kind, issue.input with
  | .unreadableInteger, .str s | .oversizedInteger, .str s =>
    if (storage.plainly? s.toList).isSome then issue.kind else .tornText
  | kind, _ => kind

/-- The lines of an issue in a report. -/
def lines (storage : Text.Storage) (issue : Issue) : String :=
  let place := ".".intercalate (issue.path.map Step.text)
  let head := if issue.path.isEmpty then "" else "\n" ++ place
  let kind := issue.reportedKind storage
  head ++ "\n  " ++ kind.message ++ " [type=" ++ kind.code ++
    ", input_value=" ++ .ofList (shownInput storage issue.input) ++
    ", input_type=" ++ issue.input.typeName ++ "]"

end Issue

/-- All that is wrong with a value, under the title of what was expected. -/
structure Report where
  title : String
  issues : List Issue

/-- A report on a value with texts that are stored in some way, as a text: a count of
the issues first. -/
def Report.textIn (storage : Text.Storage) (report : Report) : String :=
  let count := report.issues.length
  toString count ++ (if count = 1 then " validation error for " else " validation errors for ") ++
    report.title ++ String.join (report.issues.map (Issue.lines storage))

/-- A report on a value with plain texts. -/
def Report.text (report : Report) : String := report.textIn .plain

end FoldingProtocol
