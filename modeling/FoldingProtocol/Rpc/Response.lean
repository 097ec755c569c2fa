import FoldingProtocol.Model.Basic
import FoldingProtocol.Rpc.Error
import FoldingProtocol.Rpc.Request

/-!
# Answers

An answer carries the identifier of the request, and a result or an error. An
error that is not null hides the result. The folding request is the one that
both sides of this library know by its types.
-/

namespace FoldingProtocol.Rpc

/-- An answer; a null error is none. -/
structure Response where
  id : Value
  result : Value
  error : Value

/-- An answer as a message. -/
def Response.toMessage (r : Response) : Value :=
  .obj ([("jsonrpc", .str "2.0"), ("id", r.id)] ++
    [if r.error.isNull then ("result", r.result) else ("error", r.error)])

end Rpc

open Rpc

namespace FoldingRequest

/-- The method by which folding ranges are requested. -/
def method : String := "textDocument/foldingRanges"

/-- A result as a value. -/
def encodeResult : Option FoldingRangeList → Value
  | none => .null
  | some l => l.encode .wire

/-- A result: null, or a list of ranges. -/
def decodeResult (v : Value) : Except Refusal (Option FoldingRangeList) :=
  (Decoder.nullable FoldingRangeList.decode v).titled "nullable[FoldingRangeList]"

/-- The parameters of a request. -/
def decodeParams (v : Value) : Except Refusal FoldingRangeParams :=
  (FoldingRangeParams.decode v).titled Shape.foldingRangeParams.title

/-- The message that requests the ranges of a document. -/
def toMessage (params : FoldingRangeParams) (id : Value) : Value :=
  ({ method, params := params.encode .wire, id } : Request).toMessage

/-- Why an answer gives no result. An error with a number that is too long to be
shown is nothing that could be told about. -/
inductive Failure where
  | notResponse
  | malformedError (e : Value)
  | error (e : ResponseError)
  | notShowable
  | refused (r : Refusal)

/-- What is said about a message that is no proper answer. -/
def notResponseMessage : String := "Not a JSON-RPC response for " ++ method

/-- What is said about an error that is not an object. -/
def malformedErrorMessage (storage : Text.Storage) (e : Value) : String :=
  "Malformed error member in " ++ method ++ " response: " ++ e.literalTextIn storage

/-- What is said about a failure of an answer with plain texts. -/
def Failure.message : Failure → String
  | .notResponse => notResponseMessage
  | .malformedError e => malformedErrorMessage .plain e
  | .error e => e.text
  | .notShowable => Numeral.notShowable
  | .refused r => r.message

/-- The failure that an error in an answer is. -/
def failureOf : Value → Failure
  | .obj e =>
    match ResponseError.ofMembers? e with
    | some e => .error e
    | none => .notShowable
  | e => if e.isShowable then .malformedError e else .notShowable

/-- The result in an answer. -/
def decodeResponse : Value → Except Failure (Option FoldingRangeList)
  | .obj ms =>
    if !Members.has "id" ms then .error .notResponse
    else
      match Value.ofOption (Members.get? "error" ms) with
      | .null =>
        (decodeResult (.ofOption (Members.get? "result" ms))).mapError .refused
      | e => .error (failureOf e)
  | _ => .error .notResponse

end FoldingRequest

end FoldingProtocol
