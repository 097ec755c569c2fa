import FoldingProtocol.Text.Character
import FoldingProtocol.Value.Literal

/-!
# Errors in answers

A peer may put any value where an error has its code and its message, and both
are kept as they came, as long as they can be shown: an error tells its code and
its message from the moment it is made. Only when an error is sent on does the
code have to be an integer; a double loses its fraction then, and a text is read
as a numeral.
-/

namespace FoldingProtocol.Rpc

/-- An error in an answer, whose code and message can be shown; null data is no
data. -/
structure ResponseError where
  code : Value
  message : Value
  data : Value
  codeShown : code.isShowable = true := by rfl
  messageShown : message.isShowable = true := by rfl

/-- Why a code is no integer. -/
inductive BadCode where
  | unreadable (text : String)
  | tooManyDigits (count : Nat)
  | notNumber
  | infinite
  | wrongType
deriving DecidableEq, Repr

/-- The codes that this library sends. -/
inductive ErrorCode where
  | invalidRequest
  | methodNotFound
  | invalidParams
  | internalError
deriving DecidableEq, Repr

/-- The number of a code. -/
def ErrorCode.number : ErrorCode → Int
  | .invalidRequest => -32600
  | .methodNotFound => -32601
  | .invalidParams => -32602
  | .internalError => -32603

/-- The integer that a text spells. -/
def readCode (s : String) : Except BadCode Int :=
  match Numeral.readWritten s.toList with
  | .ok n => .ok n
  | .error .unreadable => .error (.unreadable s)
  | .error (.tooManyDigits count) => .error (.tooManyDigits count)

/-- The integer that a code stands for. -/
def integerCode : Value → Except BadCode Int
  | .bool b => .ok b.toInt
  | .int n => .ok n
  | .float x =>
    if x.isNaN then .error .notNumber
    else if !x.isFinite then .error .infinite
    else .ok x.truncate
  | .str s => readCode s
  | _ => .error .wrongType

namespace ResponseError

/-- An error that this library reports. -/
def ofCode (code : ErrorCode) (message : String) : ResponseError where
  code := .int code.number
  message := .str message
  data := .null
  codeShown := by cases code <;> rfl

/-- The error in an answer, with what stands for a missing code or message, if
both can be shown. -/
def ofMembers? (ms : Members) : Option ResponseError :=
  let code := (ms.get? "code").getD (.int (-1))
  let message := (ms.get? "message").getD (.str "Unknown error")
  if h : code.isShowable = true ∧ message.isShowable = true then
    some ⟨code, message, .ofOption (ms.get? "data"), h.1, h.2⟩
  else none

/-- Whether the peer does not know the method. -/
def isMethodNotFound (e : ResponseError) : Bool :=
  e.code.same (.int ErrorCode.methodNotFound.number)

/-- What is said about the error. -/
def text (e : ResponseError) : String :=
  "LSP Error " ++ e.code.shownText ++ ": " ++ e.message.shownText

/-- The error as an object, if its code is an integer. -/
def toObject (e : ResponseError) : Except BadCode Value :=
  (integerCode e.code).map fun n =>
    .obj ([("code", .int n), ("message", e.message)] ++
      if e.data.isNull then [] else [("data", e.data)])

end ResponseError

/-- What is said about a code that is no integer, where anything is. -/
def BadCode.message : BadCode → String
  | .unreadable s => "invalid literal for int() with base 10: " ++ (Value.str s).literalText
  | .tooManyDigits count => Numeral.tooManyDigits count
  | .notNumber => "cannot convert float NaN to integer"
  | .infinite => "cannot convert float infinity to integer"
  | .wrongType => "not a number"

end FoldingProtocol.Rpc
