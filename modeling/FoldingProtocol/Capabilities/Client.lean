import FoldingProtocol.Model.Client

/-!
# Folding on the client's side

What a client advertises comes from its configuration, and what a server learns
comes from what was advertised. Both look into values that may lack the parts
looked for: a part that is absent leaves the capability unspecified, while a
part of the wrong kind has no members to look up.
-/

namespace FoldingProtocol

/-- Why nothing could be looked up in a value: it was refused, or it is no
object. -/
inductive LookupFailure where
  | refused (r : Refusal)
  | noMembers

namespace FoldingClientCapabilities

/-- Capabilities from settings under their field names. -/
def ofSettings (settings : Members) : Except Refusal FoldingClientCapabilities :=
  (decode (.obj settings)).titled title

/-- The settings of a configuration section that make up the capabilities. -/
def settings (section? : Members) : Members :=
  [dynamicRegistrationField, maximumNumberOfRangesField, completeLineFoldingOnlyField].map
    fun field => (field.name, .ofOption (section?.get? field.name))

/-- Capabilities as a client advertises them. -/
def advertised (c : FoldingClientCapabilities) : ClientCapabilities :=
  ⟨some ⟨some c, []⟩, []⟩

/-- The folding capabilities that a client advertised. -/
def ofClient (c : ClientCapabilities) : FoldingClientCapabilities :=
  (c.textDocument.bind (·.foldingProvider)).getD unspecified

/-- The folding capabilities in a value; null advertises nothing. -/
def ofValue : Value → Except LookupFailure FoldingClientCapabilities
  | .null => .ok unspecified
  | .obj ms =>
    match (ClientCapabilities.decode (.obj ms)).titled "ClientCapabilities" with
    | .ok c => .ok (ofClient c)
    | .error r => .error (.refused r)
  | _ => .error .noMembers

/-- The folding section of a configuration. -/
def foldingSection (config : Value) : Except LookupFailure Members :=
  if !config.isTruthy then .ok []
  else
    match config with
    | .obj ms =>
      match Members.get? "folding" ms with
      | none => .ok []
      | some (.obj folding) => .ok folding
      | some _ => .error .noMembers
    | _ => .error .noMembers

/-- The folding capabilities that a configuration asks for. -/
def ofConfig (config : Value) : Except LookupFailure FoldingClientCapabilities := do
  let folding ← foldingSection config
  (ofSettings (settings folding)).mapError .refused

end FoldingClientCapabilities

/-- What a client with a configuration advertises. -/
def ClientCapabilities.ofConfig (config : Value) : Except LookupFailure ClientCapabilities :=
  (FoldingClientCapabilities.ofConfig config).map (·.advertised)

end FoldingProtocol
