/-!
# Places in a text

A reader works on what is left of a text. Where it stands is then known from
the whole and the rest alone, and is told to people as a line and a column,
both counted from one.
-/

namespace FoldingProtocol.Text

/-- A place in a text: the characters before it, its line, and its column. -/
structure Position where
  offset : Nat
  line : Nat
  column : Nat
deriving DecidableEq, Repr

/-- The place right after some text. -/
def Position.after (passed : List Char) : Position :=
  ⟨passed.length, passed.count '\n' + 1,
    (passed.reverse.takeWhile (· ≠ '\n')).length + 1⟩

/-- The place in `text` where `rest` is what is left of it. -/
def Position.ofRest (text rest : List Char) : Position :=
  .after (text.take (text.length - rest.length))

end FoldingProtocol.Text
