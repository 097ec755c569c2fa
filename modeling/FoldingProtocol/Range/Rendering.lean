import FoldingProtocol.Range.Basic

/-!
# Ranges as lines

A range is shown on one line: where it starts, a dash, where it ends, and its
kind. A kind that the protocol does not name is marked as a custom one, so that
it cannot be taken for one that it does.
-/

namespace FoldingProtocol

/-- A line number, with the offset inside the line if there is one. -/
def renderPlace (line : Nat) : (character : Option Nat) → String
  | none => toString line
  | some n => toString line ++ ":" ++ toString n

/-- A kind behind a blank. -/
def RangeKind.render (kind : RangeKind) : String :=
  " " ++ kind.name ++ (if kind.isKnown then "" else " (custom)")

/-- A range on one line. -/
def FoldingRange.render (r : FoldingRange) : String :=
  renderPlace r.startLine r.startCharacter ++ "-" ++
    renderPlace r.endLine r.endCharacter ++ (r.kind.map RangeKind.render).getD ""

/-- What is shown where there is nothing to fold. -/
def noRanges : String := "No folding ranges"

/-- A result, a range on each line. -/
def renderRanges : Option FoldingRangeList → String
  | none => noRanges
  | some ⟨[]⟩ => noRanges
  | some ⟨ranges⟩ => "\n".intercalate (ranges.map FoldingRange.render)

end FoldingProtocol
