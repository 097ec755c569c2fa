/-!
# Folding ranges

A folding range is a span of lines that an editor can collapse. Its first line
does not come after its last one; a span for which that fails is malformed, and
is kept so that it can be reported. Character offsets narrow the span inside
its first and last line; without one the fold reaches to the end of that line's
content, which only the editor knows.
-/

namespace FoldingProtocol

/-- What a range folds, by name. The protocol knows three kinds; any other name
is carried through. -/
structure RangeKind where
  name : String
deriving DecidableEq, Repr

/-- The names that the protocol gives. -/
def RangeKind.known : List String := ["comment", "imports", "region"]

/-- A kind that the protocol names. -/
def RangeKind.isKnown (kind : RangeKind) : Bool := known.contains kind.name

/-- A span of lines, in order or not. -/
structure Span where
  startLine : Nat
  startCharacter : Option Nat
  endLine : Nat
  endCharacter : Option Nat
  kind : Option RangeKind
deriving DecidableEq, Repr

namespace Span

/-- A span with an offset at either end. -/
def hasOffsets (s : Span) : Bool := s.startCharacter.isSome || s.endCharacter.isSome

/-- The same lines and kind, from the start of the first line to the end of the
last. -/
def withoutOffsets (s : Span) : Span :=
  { s with startCharacter := none, endCharacter := none }

end Span

/-- A span that does not start after it ends. -/
structure FoldingRange extends Span where
  ordered : startLine ≤ endLine
deriving DecidableEq, Repr

/-- How a range can break what ranges promise: it starts after it ends, or it
carries offsets where only whole lines are folded, as the first of `count`
ranges that do. -/
inductive MalformedRange where
  | startsAfterEnd (span : Span)
  | carriesOffsets (count : Nat) (first : FoldingRange)

namespace MalformedRange

/-- The offending span. -/
def span : MalformedRange → Span
  | .startsAfterEnd s => s
  | .carriesOffsets _ r => r.toSpan

/-- What is said about it. -/
def message : MalformedRange → String
  | .startsAfterEnd s =>
    "Folding range starts after it ends: startLine=" ++ toString s.startLine ++
      " > endLine=" ++ toString s.endLine
  | .carriesOffsets count _ =>
    toString count ++ " folding range(s) carry character offsets " ++
      "but the client only folds complete lines"

end MalformedRange

namespace FoldingRange

/-- The range on a span, if its lines are in order. -/
def ofSpan? (s : Span) : Option FoldingRange :=
  if h : s.startLine ≤ s.endLine then some ⟨s, h⟩ else none

/-- The range without its offsets; the lines stay, and so does their order. -/
def withoutOffsets (r : FoldingRange) : FoldingRange :=
  ⟨r.toSpan.withoutOffsets, r.ordered⟩

end FoldingRange

/-- The ranges of a document. -/
structure FoldingRangeList where
  ranges : List FoldingRange
deriving DecidableEq, Repr

/-- The ranges of a document as a result: no ranges at all is no result. -/
def FoldingRangeList.ofRanges? : List FoldingRange → Option FoldingRangeList
  | [] => none
  | ranges => some ⟨ranges⟩

end FoldingProtocol
