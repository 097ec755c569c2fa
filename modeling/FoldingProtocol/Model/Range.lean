import FoldingProtocol.Decoding.Scalar
import FoldingProtocol.Model.Style

/-!
# Folding ranges in messages
-/

namespace FoldingProtocol

/-- A kind: a name that the protocol knows or, failing that, any text. A value
that is neither has an issue for both. -/
def RangeKind.decode : Decoder RangeKind
  | .str s => .accepted ⟨s⟩
  | v => .rejected [
    ⟨.notKnownKind, [.member "str-enum[FoldingRangeKind]"], v⟩,
    ⟨.notText, [.member "str"], v⟩]

namespace Span

def startLineField : Field := ⟨"startLine", "start_line"⟩
def startCharacterField : Field := ⟨"startCharacter", "start_character"⟩
def endLineField : Field := ⟨"endLine", "end_line"⟩
def endCharacterField : Field := ⟨"endCharacter", "end_character"⟩
def kindField : Field := ⟨"type", "kind"⟩

/-- The members of a span, in whatever order its lines are. -/
def ofMembers (ms : Members) : Decoded Span :=
  Span.mk <$> startLineField.required Decoder.count ms
    <*> Decoder.optional startCharacterField Decoder.count ms
    <*> endLineField.required Decoder.count ms
    <*> Decoder.optional endCharacterField Decoder.count ms
    <*> Decoder.optional kindField RangeKind.decode ms

/-- A span as an object. -/
def encode (style : Style) (s : Span) : Value :=
  style.object [
    startLineField.entry style (.ofNat s.startLine),
    startCharacterField.entry style (.ofNat? s.startCharacter),
    endLineField.entry style (.ofNat s.endLine),
    endCharacterField.entry style (.ofNat? s.endCharacter),
    kindField.entry style (.ofText? (s.kind.map RangeKind.name))] []

end Span

namespace FoldingRange

/-- The range on a decoded span. What is malformed is told of with its lines; if
they cannot be shown, it is an issue of the members like any other. -/
def ofSpan (ms : Members) (s : Span) : Decoded FoldingRange :=
  match ofSpan? s with
  | some r => .accepted r
  | none =>
    if Numeral.isShowable s.startLine then .malformed s else .refuse .notShowable (.obj ms)

/-- A range. Its lines are compared once all of its members are accepted. -/
def decode : Decoder FoldingRange :=
  Decoder.object "FoldingRange" fun ms => (Span.ofMembers ms).check (ofSpan ms)

/-- A range as an object. -/
def encode (style : Style) (r : FoldingRange) : Value := r.toSpan.encode style

end FoldingRange

namespace FoldingRangeList

def rangesField : Field := .plain "ranges"

/-- A list of ranges. -/
def decode : Decoder FoldingRangeList :=
  Decoder.object "FoldingRangeList" fun ms =>
    FoldingRangeList.mk <$> rangesField.required (Decoder.list FoldingRange.decode) ms

/-- A list of ranges as an object. -/
def encode (style : Style) (l : FoldingRangeList) : Value :=
  style.object [
    rangesField.entry style (.arr (l.ranges.map (FoldingRange.encode style)))] []

end FoldingRangeList

end FoldingProtocol
