import FoldingProtocol.Value.Basic

/-!
# Requests

A request names a method, may have parameters and may have an identifier. One
without an identifier is a notification, to which nobody expects an answer.
-/

namespace FoldingProtocol.Rpc

/-- A request or, where the identifier is null, a notification. -/
structure Request where
  method : String
  params : Value
  id : Value

/-- Why a message is not a request. -/
inductive BadRequest where
  | notObject (typeName : String)
  | badMethod
  | badParams
deriving DecidableEq, Repr

/-- What is said about it. -/
def BadRequest.message : BadRequest → String
  | .notObject typeName => "Expected a JSON object, got " ++ typeName
  | .badMethod => "Missing or invalid 'method' member"
  | .badParams => "'params' must be an object or an array"

namespace Request

/-- Without an identifier there is nothing to answer to. -/
def isNotification (r : Request) : Bool := r.id.isNull

/-- A value that may stand as parameters. -/
def isParams : Value → Bool
  | .null => true
  | .arr _ => true
  | .obj _ => true
  | _ => false

/-- The request that a message is. -/
def ofMessage : Value → Except BadRequest Request
  | .obj ms =>
    match Members.get? "method" ms with
    | some (.str method) =>
      let params := Value.ofOption (Members.get? "params" ms)
      if isParams params then
        .ok ⟨method, params, .ofOption (Members.get? "id" ms)⟩
      else .error .badParams
    | _ => .error .badMethod
  | v => .error (.notObject v.typeName)

/-- A member unless it is null. -/
def unlessNull (name : String) : Value → Members
  | .null => []
  | v => [(name, v)]

/-- A request as a message. -/
def toMessage (r : Request) : Value :=
  .obj ([("jsonrpc", .str "2.0"), ("method", .str r.method)] ++
    unlessNull "id" r.id ++ unlessNull "params" r.params)

end Request

/-- The identifier of a message, null if it has none. -/
def messageId : Value → Value
  | .obj ms => .ofOption (Members.get? "id" ms)
  | _ => .null

end FoldingProtocol.Rpc
