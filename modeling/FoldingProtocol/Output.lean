import FoldingProtocol.Json.Printer
import FoldingProtocol.Model.Basic
import FoldingProtocol.Range.Rendering
import FoldingProtocol.Value.Literal

/-!
# Showing results

A result is shown as indented JSON, or plainly: ranges as lines, texts as they
are, an object as JSON unless it tells of an error, and anything else the way a
message shows it. A number of very many digits cannot be shown, and then nothing is.
-/

namespace FoldingProtocol

/-- What can be shown: a bare value, or a value of a shape. -/
inductive Output where
  | value (v : Value)
  | model (m : Model)

/-- How a result is shown. -/
inductive OutputFormat where
  | json
  | plain
deriving DecidableEq, Repr

/-- The format of a name; any name but one means plain. -/
def OutputFormat.ofName (name : String) : OutputFormat :=
  if name = "json" then .json else .plain

namespace Output

/-- A result of a folding request. -/
def ofRanges : Option FoldingRangeList → Output
  | none => .value .null
  | some l => .model (.foldingRangeList l)

/-- The bare value of a result. -/
def toValue : Output → Value
  | .value v => v
  | .model m => m.toWire

/-- A bare value shown plainly. -/
def renderValue (storage : Text.Storage) : Value → String
  | .null => noRanges
  | .obj ms =>
    match Members.get? "error" ms with
    | some e => "Error: " ++ e.shownTextIn storage
    | none => Json.pretty storage (.obj ms)
  | v => v.shownTextIn storage

/-- A result shown plainly. -/
def renderPlainIn (storage : Text.Storage) : Output → String
  | .model (.foldingRangeList l) => renderRanges (some l)
  | .model m => renderValue storage m.toWire
  | .value v => renderValue storage v

/-- A result with plain texts shown plainly. -/
def renderPlain (o : Output) : String := o.renderPlainIn .plain

/-- What plain showing looks at: of an object that tells of an error only that. -/
def plainPart (o : Output) : Value :=
  match o, o.toValue with
  | .model (.foldingRangeList l), _ => l.encode .wire
  | _, .obj ms => (Members.get? "error" ms).getD (.obj ms)
  | _, v => v

/-- A result in a format, if it can be shown, its texts stored in some way. -/
def render (storage : Text.Storage) : OutputFormat → Output → Option String
  | .json, o => Json.pretty? storage o.toValue
  | .plain, o => if o.plainPart.isShowable then some (o.renderPlainIn storage) else none

end Output

end FoldingProtocol
