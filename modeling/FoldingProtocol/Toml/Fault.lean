import FoldingProtocol.Text.Numeral
import FoldingProtocol.Text.Position
import FoldingProtocol.Text.Quoted

/-!
# Faults of configuration files

What can be wrong with the text of a file, each with what was left of the text
where the reader stood. A place at the end of the text is called the end of the
document and has no line.
-/

namespace FoldingProtocol.Toml

/-- The way from the root of a document to a table or a value. -/
abbrev Path := List String

/-- What can be wrong. -/
inductive Problem where
  | badStatement
  | afterStatement
  | noEquals
  | badKey
  | badValue
  | badMoment
  | openArray
  | openTable
  | duplicateKey (key : String)
  | overwritten
  | declaredTwice (path : Path)
  | fixed (path : Path)
  | redefined (path : Path)
  | openHeader
  | openArrayHeader
  | openText
  | illegalChar (c : Char)
  | invalidChar (c : Char)
  | openLiteral
  | openLongLiteral
  | badEscape
  | badHex
  | notCharacter

/-- Why a text was not read: something is wrong where `rest` was left, or it
holds an integer of more digits than are accepted. -/
inductive Fault where
  | grammar (problem : Problem) (rest : List Char)
  | digits (count : Nat)

/-- A path between parentheses; a path of one part keeps its comma. -/
def pathText : Path → String
  | [key] => "(" ++ .ofList (Text.quoted key.toList) ++ ",)"
  | path => "(" ++ ", ".intercalate (path.map fun k => .ofList (Text.quoted k.toList)) ++ ")"

/-- A character between quotes. -/
def charText (c : Char) : String := .ofList (Text.quoted [c])

/-- The wording of a problem. -/
def Problem.message : Problem → String
  | .badStatement => "Invalid statement"
  | .afterStatement => "Expected newline or end of document after a statement"
  | .noEquals => "Expected '=' after a key in a key/value pair"
  | .badKey => "Invalid initial character for a key part"
  | .badValue => "Invalid value"
  | .badMoment => "Invalid date or datetime"
  | .openArray => "Unclosed array"
  | .openTable => "Unclosed inline table"
  | .duplicateKey key => "Duplicate inline table key " ++ .ofList (Text.quoted key.toList)
  | .overwritten => "Cannot overwrite a value"
  | .declaredTwice path => "Cannot declare " ++ pathText path ++ " twice"
  | .fixed path => "Cannot mutate immutable namespace " ++ pathText path
  | .redefined path => "Cannot redefine namespace " ++ pathText path
  | .openHeader => "Expected ']' at the end of a table declaration"
  | .openArrayHeader => "Expected ']]' at the end of an array declaration"
  | .openText => "Unterminated string"
  | .illegalChar c => "Illegal character " ++ charText c
  | .invalidChar c => "Found invalid character " ++ charText c
  | .openLiteral => "Expected \"'\""
  | .openLongLiteral => "Expected \"'''\""
  | .badEscape => "Unescaped '\\' in a string"
  | .badHex => "Invalid hex value"
  | .notCharacter => "Escaped character is not a Unicode scalar value"

/-- Where a reader stood. -/
def placeText (whole rest : List Char) : String :=
  match rest with
  | [] => "end of document"
  | _ =>
    let place := Text.Position.ofRest whole rest
    "line " ++ toString place.line ++ ", column " ++ toString place.column

/-- What is said about a fault in a text. -/
def Fault.message (whole : List Char) : Fault → String
  | .grammar problem rest => problem.message ++ " (at " ++ placeText whole rest ++ ")"
  | .digits count => Numeral.tooManyDigits count

end FoldingProtocol.Toml
