import FoldingProtocol.Log
import FoldingProtocol.Model.Client
import FoldingProtocol.Range.Basic

/-!
# Fitting a result to a client

A client may fold only whole lines, and it may hint at a greatest number of
ranges. Offsets that such a client cannot use are either removed or refused,
and ranges above the hint are either cut off or left with a remark. Nothing is
changed without a warning.
-/

namespace FoldingProtocol

/-- What to do with offsets that a client cannot use. -/
inductive OffsetPolicy where
  | strip
  | reject
deriving DecidableEq, Repr

/-- The name of the policy that refuses offsets; any other name removes them. -/
def OffsetPolicy.ofName (name : String) : OffsetPolicy :=
  if name = "reject" then .reject else .strip

namespace FoldingClientCapabilities

/-- Whether only whole lines are folded. -/
def wholeLinesOnly (c : FoldingClientCapabilities) : Bool :=
  c.completeLineFoldingOnly == some true

/-- Ranges fitted to whole lines. -/
def fitLines (c : FoldingClientCapabilities) (policy : OffsetPolicy)
    (ranges : List FoldingRange) :
    Except MalformedRange (List FoldingRange × List Log.Record) :=
  if !c.wholeLinesOnly then .ok (ranges, [])
  else
    match ranges.filter (·.hasOffsets) with
    | [] => .ok (ranges, [])
    | first :: rest =>
      let count := rest.length + 1
      match policy with
      | .reject => .error (.carriesOffsets count first)
      | .strip =>
        .ok (ranges.map (·.withoutOffsets), [⟨.warning,
          "Stripping character offsets from " ++ toString count ++ " folding range(s)"⟩])

/-- Ranges fitted to the hint. -/
def fitCount (c : FoldingClientCapabilities) (truncate : Bool)
    (ranges : List FoldingRange) : List FoldingRange × List Log.Record :=
  match c.maximumNumberOfRanges with
  | none => (ranges, [])
  | some limit =>
    if ranges.length ≤ limit then (ranges, [])
    else if truncate then
      (ranges.take limit, [⟨.warning,
        "Truncating " ++ toString ranges.length ++ " folding ranges to " ++ toString limit⟩])
    else
      (ranges, [⟨.debug,
        "Result has " ++ toString ranges.length ++ " folding ranges, above the hint of " ++
          toString limit⟩])

/-- A result fitted to a client, with the records written on the way; a missing
result stays missing. -/
def apply (c : FoldingClientCapabilities) (policy : OffsetPolicy) (truncate : Bool) :
    Option FoldingRangeList →
      Except MalformedRange (Option FoldingRangeList × List Log.Record)
  | none => .ok (none, [])
  | some ⟨ranges⟩ => do
    let (ranges, stripped) ← c.fitLines policy ranges
    let (ranges, cut) := c.fitCount truncate ranges
    .ok (some ⟨ranges⟩, stripped ++ cut)

end FoldingClientCapabilities

end FoldingProtocol
