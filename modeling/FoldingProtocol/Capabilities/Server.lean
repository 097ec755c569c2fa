import FoldingProtocol.Capabilities.Client
import FoldingProtocol.Log
import FoldingProtocol.Model.Registration
import FoldingProtocol.Model.Server
import FoldingProtocol.Rpc.Response

/-!
# Folding on the server's side

A server offers folding from the start, in its capabilities, or later, by
registering for the folding request. Of several registrations the first one for
that method counts.
-/

namespace FoldingProtocol

namespace ServerCapabilities

/-- Whether a server offers folding. -/
def supportsFolding (c : ServerCapabilities) : Bool :=
  c.foldingProvider.any FoldingProvider.isOffer

/-- The capabilities that a value is; null offers nothing. -/
def ofValue : Value → Except LookupFailure ServerCapabilities
  | .null => .ok unspecified
  | .obj ms => ((decode (.obj ms)).titled "ServerCapabilities").mapError .refused
  | _ => .error .noMembers

end ServerCapabilities

/-- A method that a server does not offer. -/
structure NotSupported where
  method : String
  serverName : String
deriving DecidableEq, Repr

/-- What is said about it. -/
def NotSupported.message (e : NotSupported) : String :=
  e.method ++ " is not supported by " ++ e.serverName

/-- Demands that a server offers folding. -/
def ServerCapabilities.ensureFolding (serverName : String) (c : ServerCapabilities) :
    Except NotSupported Unit :=
  if c.supportsFolding then .ok () else .error ⟨FoldingRequest.method, serverName⟩

namespace RegistrationParams

/-- The options as they are decoded: none are an empty object, and a selector
that is left out is null. -/
def foldingOptions (options : Value) : Value :=
  if !options.isTruthy then .obj [("documentSelector", .null)]
  else
    match options with
    | .obj ms => .obj (Members.putAll [("documentSelector", .null)] ms)
    | v => v

/-- The first registration for folding, if there is one. -/
def folding? (p : RegistrationParams) : Option Registration :=
  p.registrations.find? (·.method == FoldingRequest.method)

/-- The options of a registration for folding, under its own identifier. -/
def decodeFolding (r : Registration) : Except Refusal FoldingRegistrationOptions :=
  ((FoldingRegistrationOptions.decode (foldingOptions r.registerOptions)).titled
    FoldingRegistrationOptions.title).map fun o => { o with id := some r.id }

/-- The record of a registration found. -/
def foundRecord (r : Registration) : Log.Record :=
  ⟨.debug, "Found dynamic registration " ++ r.id ++ " for " ++ FoldingRequest.method⟩

/-- The folding options registered for, with the records written while looking. -/
def findFolding (p : RegistrationParams) :
    Except Refusal (Option FoldingRegistrationOptions) × List Log.Record :=
  match p.folding? with
  | none => (.ok none, [])
  | some r => ((decodeFolding r).map some, [foundRecord r])

/-- The registrations that a value is. -/
def ofValue : Value → Except LookupFailure RegistrationParams
  | .obj ms => ((decode (.obj ms)).titled "RegistrationParams").mapError .refused
  | _ => .error .noMembers

end RegistrationParams

end FoldingProtocol
