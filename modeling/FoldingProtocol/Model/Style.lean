import FoldingProtocol.Decoding.Basic

/-!
# Writing objects of the protocol

On the wire an object has its members under their wire names, and those that
are null are left out. As plain fields it has all of them, under their field
names. Members that an object holds beside its fields come after them. An object
that holds values of any kind is sent dumped, which leaves a null where a double is
not finite: it was not null when the null ones were left out, so it stays.
-/

namespace FoldingProtocol

/-- How an object is written. -/
inductive Style where
  | wire
  | fields
deriving DecidableEq, Repr

/-- The name of a field. -/
def Field.key (field : Field) : Style → String
  | .wire => field.wire
  | .fields => field.name

/-- A field with its value. -/
def Field.entry (field : Field) (style : Style) (v : Value) : String × Value :=
  (field.key style, v)

/-- An object from its fields and what it holds beside them. -/
def Style.object (style : Style) (fields extras : Members) : Value :=
  let all := fields.putAll extras
  .obj (match style with
    | .wire => all.dropNulls
    | .fields => all)

end FoldingProtocol
