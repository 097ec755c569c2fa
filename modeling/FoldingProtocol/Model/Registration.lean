import FoldingProtocol.Decoding.Scalar
import FoldingProtocol.Model.Style

/-!
# Registrations

A server can offer a method later, by registering for it under an identifier.
Its options have a shape that depends on the method, so here they are any
value; null stands for none.
-/

namespace FoldingProtocol

/-- An offer of a method. -/
structure Registration where
  id : String
  method : String
  registerOptions : Value

/-- The offers made in one message. -/
structure RegistrationParams where
  registrations : List Registration

namespace Registration

def idField : Field := .plain "id"
def methodField : Field := .plain "method"
def registerOptionsField : Field := ⟨"registerOptions", "register_options"⟩

/-- A registration, with any options or none. -/
def decode : Decoder Registration :=
  Decoder.object "Registration" fun ms =>
    Registration.mk <$> idField.required Decoder.text ms
      <*> methodField.required Decoder.text ms
      <*> registerOptionsField.defaulted .null .accepted ms

/-- A registration as an object. -/
def encode (style : Style) (r : Registration) : Value :=
  (style.object [
    idField.entry style (.str r.id),
    methodField.entry style (.str r.method),
    registerOptionsField.entry style r.registerOptions] []).dumped

/-- Equality up to sameness of the options. -/
def same (a b : Registration) : Bool :=
  a.id == b.id && a.method == b.method && Value.same a.registerOptions b.registerOptions

end Registration

namespace RegistrationParams

def registrationsField : Field := .plain "registrations"

/-- A list of registrations. -/
def decode : Decoder RegistrationParams :=
  Decoder.object "RegistrationParams" fun ms =>
    RegistrationParams.mk
      <$> registrationsField.required (Decoder.list Registration.decode) ms

/-- A list of registrations as an object. -/
def encode (style : Style) (p : RegistrationParams) : Value :=
  style.object [
    registrationsField.entry style
      (.arr (p.registrations.map (Registration.encode style)))] []

/-- Equality up to sameness of the options. -/
def same (a b : RegistrationParams) : Bool :=
  a.registrations.length == b.registrations.length &&
    (a.registrations.zip b.registrations).all fun (x, y) => x.same y

end RegistrationParams

end FoldingProtocol
