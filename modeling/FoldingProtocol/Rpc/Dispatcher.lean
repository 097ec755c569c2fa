import FoldingProtocol.Capabilities.Server
import FoldingProtocol.Output

/-!
# Dispatching requests

A dispatcher routes each request to the handler of its method. The outcome is an
answer for a request and silence for a notification; what went wrong in a
notification is at least logged. The first registration of a method stands, and
later ones are refused.

A dispatcher tells of each request before it serves it, and of each exception of
a handler when it answers. What cannot be told is not served, or not answered: an
identifier with a number of too many digits, and an exception without a text.

Dispatching is a function of the dispatcher and the message. Besides the answer
it tells which handlers were called and what was logged.
-/

namespace FoldingProtocol.Rpc

/-- How a handler's result is written. -/
inductive ResultType where
  | folding
  | any
deriving DecidableEq, Repr

/-- A kind of request: its method, the shape of its parameters, and how its
result is written. -/
structure RequestType where
  method : String
  params : Shape
  result : ResultType
deriving DecidableEq, Repr

/-- What a handler comes to. A result may be one that cannot be written; that
shows only when it is to be. The message is what the exception says, if it can be
made to say anything. -/
inductive Outcome where
  | returned (result : Output)
  | unwritable (message? : Option String)
  | failed (e : ResponseError)
  | notSupported (e : NotSupported)
  | malformed (range : MalformedRange)
  | crashed (message? : Option String)

/-- The folding request as a kind of request. -/
def RequestType.foldingRanges : RequestType :=
  ⟨FoldingRequest.method, .foldingRangeParams, .folding⟩

/-- A handler of decoded parameters. -/
abbrev Handler := Model → Outcome

/-- A handler for a kind of request. -/
structure Route where
  request : RequestType
  handler : Handler

/-- The routes, one for each method. -/
structure Dispatcher where
  routes : List Route

/-- A call of a handler. -/
structure Call where
  method : String
  params : Model

/-- Why a request has no result: an error for the peer, or an exception that says
nothing. -/
inductive Unserved where
  | error (e : ResponseError)
  | untold

/-- What serving a request comes to: a result or none, the calls made, and the
records written. -/
structure Served where
  result : Except Unserved Value
  calls : List Call
  records : List Log.Record

/-- What escapes from dispatching: the code of an error is no integer, the
identifier cannot be shown, or an exception says nothing. -/
inductive Raised where
  | badCode (bad : BadCode)
  | hiddenId
  | untold
deriving DecidableEq, Repr

/-- What dispatching a message comes to: an answer or none, unless something
escapes; the calls made, and the records written. -/
structure Dispatched where
  reply : Except Raised (Option Value)
  calls : List Call
  records : List Log.Record

/-- A result as a value. A value of a shape that is not the shape of folding
results has none of their members. -/
def ResultType.encode : ResultType → Output → Value
  | _, .value v => v.dumped
  | .folding, .model (.foldingRangeList l) => l.encode .wire
  | .folding, .model _ => .obj []
  | .any, .model m => m.toWire

/-- The result or error that an outcome stands for, and the records it
leaves. -/
def Route.conclude (r : Route) : Outcome → Except Unserved Value × List Log.Record
  | .returned result => (.ok (r.request.result.encode result), [])
  | .failed e => (.error (.error e), [])
  | .notSupported e => (.error (.error (.ofCode .methodNotFound e.message)), [])
  | .malformed range =>
    (.error (.error (.ofCode .internalError range.message)), [⟨.error,
      "Handler for " ++ r.request.method ++ " produced a malformed range: " ++ range.message⟩])
  | .unwritable message? | .crashed message? =>
    (.error (match message? with
        | some message => .error (.ofCode .internalError message)
        | none => .untold),
      [⟨.error, "Error in handler " ++ r.request.method⟩])

/-- Serves parameters: they are decoded, and the handler is called on them. -/
def Route.serve (r : Route) (params : Value) : Served :=
  match r.request.params.decode params with
  | .error refusal =>
    ⟨.error (.error (.ofCode .invalidParams
      ("Invalid params for " ++ r.request.method ++ ": " ++ refusal.message))), [], []⟩
  | .ok decoded =>
    let (result, records) := r.conclude (r.handler decoded)
    ⟨result, [⟨r.request.method, decoded⟩], records⟩

/-- An answer with an error. -/
def errorReply (id : Value) (e : ResponseError) : Except Raised (Option Value) :=
  (e.toObject.map fun error => some (Response.toMessage ⟨id, .null, error⟩)).mapError .badCode

namespace Dispatcher

/-- A dispatcher without routes. -/
def empty : Dispatcher := ⟨[]⟩

/-- The route of a method. -/
def route? (d : Dispatcher) (method : String) : Option Route :=
  d.routes.find? (·.request.method == method)

/-- Whether a method has a route. -/
def supports (d : Dispatcher) (method : String) : Bool := (d.route? method).isSome

/-- Adds a route, unless its method has one already. -/
def register? (d : Dispatcher) (r : Route) : Option Dispatcher :=
  if d.supports r.request.method then none else some ⟨d.routes ++ [r]⟩

/-- What is said about a method that has a route already. -/
def registeredMessage (method : String) : String :=
  "Handler already registered for " ++ method

/-- The capabilities of a server with these routes. -/
def serverCapabilities (d : Dispatcher) (registration : Option FoldingRegistrationOptions) :
    ServerCapabilities :=
  if d.supports FoldingRequest.method then
    match registration with
    | some options => ⟨some (.registration options), []⟩
    | none => ⟨some (.marker ⟨⟩), []⟩
  else .unspecified

/-- Serves a request by the route of its method. -/
def serve (d : Dispatcher) (r : Request) : Served :=
  match d.route? r.method with
  | none => ⟨.error (.error (.ofCode .methodNotFound ("Method not found: " ++ r.method))), [], []⟩
  | some route => route.serve r.params

/-- The record of a request that is going to be served. -/
def dispatchRecord (r : Request) : Log.Record :=
  ⟨.debug, "Dispatching " ++ r.method ++ " (id=" ++ r.id.shownText ++ ")"⟩

/-- The record of a notification that failed. -/
def failureRecord (r : Request) (e : ResponseError) : Log.Record :=
  ⟨.warning, "Notification " ++ r.method ++ " failed: " ++ e.text⟩

/-- Answers a served request; a notification gets no answer. -/
def conclude (r : Request) : Except Unserved Value → Except Raised (Option Value) × List Log.Record
  | .ok v =>
    if r.isNotification then (.ok none, [])
    else (.ok (some (Response.toMessage ⟨r.id, v, .null⟩)), [])
  | .error (.error e) =>
    if r.isNotification then (.ok none, [failureRecord r e]) else (errorReply r.id e, [])
  | .error .untold => (.error .untold, [])

/-- Dispatches a message. A request is told of before anything else is done. -/
def dispatch (d : Dispatcher) (message : Value) : Dispatched :=
  match Request.ofMessage message with
  | .error bad =>
    ⟨errorReply (messageId message) (.ofCode .invalidRequest bad.message), [], []⟩
  | .ok r =>
    if !r.id.isShowable then ⟨.error .hiddenId, [], []⟩
    else
      let served := d.serve r
      let (reply, records) := conclude r served.result
      ⟨reply, served.calls, dispatchRecord r :: served.records ++ records⟩

end Dispatcher

end FoldingProtocol.Rpc
