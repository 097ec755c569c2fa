import FoldingProtocol.Model.Document

/-!
# What a server offers

A server announces folding in its capabilities: with a truth value, with an
object that says nothing further, or with options that select documents. The
selector has to be there in such options, but it may be null, which selects
everything; it is therefore written even when it is null.
-/

namespace FoldingProtocol

/-- Options for the documents to fold in. -/
structure FoldingRegistrationOptions where
  documentSelector : Option (List DocumentFilter)
  id : Option String
deriving DecidableEq, Repr

/-- An object that offers folding and says nothing further. -/
structure FoldingOptions where
deriving DecidableEq, Repr

/-- How a server offers folding. -/
inductive FoldingProvider where
  | flag (b : Bool)
  | registration (options : FoldingRegistrationOptions)
  | marker (options : FoldingOptions)
deriving DecidableEq, Repr

/-- All that a server says. -/
structure ServerCapabilities where
  foldingProvider : Option FoldingProvider
  extras : Members

namespace FoldingOptions

/-- The name of this shape. -/
def title : String := "FoldingProviderOptions"

/-- Any object will do, and nothing in it is looked at. -/
def decode : Decoder FoldingOptions := Decoder.object title fun _ => .accepted ⟨⟩

/-- An object without members. -/
def encode (style : Style) (_ : FoldingOptions) : Value := style.object [] []

end FoldingOptions

namespace FoldingRegistrationOptions

def documentSelectorField : Field := ⟨"documentSelector", "document_selector"⟩
def idField : Field := .plain "id"

/-- The name of this shape. -/
def title : String := "FoldingProviderRegistrationOptions"

/-- Options, in which the selector may be null but not missing. -/
def decode : Decoder FoldingRegistrationOptions :=
  Decoder.object title fun ms =>
    FoldingRegistrationOptions.mk
      <$> documentSelectorField.required
        (Decoder.nullable (Decoder.list DocumentFilter.decode)) ms
      <*> Decoder.optional idField Decoder.text ms

/-- A selector as a value. -/
def encodeSelector (style : Style) (selector : Option (List DocumentFilter)) : Value :=
  .ofOption (selector.map fun filters => .arr (filters.map (DocumentFilter.encode style)))

/-- Options as an object; a null selector that was left out comes last. -/
def encode (style : Style) (o : FoldingRegistrationOptions) : Value :=
  match style.object [
      documentSelectorField.entry style (encodeSelector style o.documentSelector),
      idField.entry style (.ofText? o.id)] [] with
  | .obj ms =>
    let key := documentSelectorField.key style
    .obj (if Members.has key ms then ms else Members.put key .null ms)
  | v => v

end FoldingRegistrationOptions

namespace FoldingProvider

/-- An offer: the first of the three forms that the value has. -/
def decode : Decoder FoldingProvider :=
  Decoder.firstOf [
    ("bool", fun v => (Decoder.flag v).map flag),
    (FoldingRegistrationOptions.title,
      fun v => (FoldingRegistrationOptions.decode v).map registration),
    (FoldingOptions.title, fun v => (FoldingOptions.decode v).map marker)]

/-- An offer as a value. -/
def encode (style : Style) : FoldingProvider → Value
  | .flag b => .bool b
  | .registration options => options.encode style
  | .marker options => options.encode style

/-- Whether folding is offered at all. -/
def isOffer : FoldingProvider → Bool
  | .flag b => b
  | _ => true

end FoldingProvider

namespace ServerCapabilities

def foldingProviderField : Field := ⟨"foldingProvider", "folding_provider"⟩

/-- A server that offers nothing. -/
def unspecified : ServerCapabilities := ⟨none, []⟩

/-- Capabilities; members other than that for folding are kept. -/
def decode : Decoder ServerCapabilities :=
  Decoder.object "ServerCapabilities" fun ms =>
    (ServerCapabilities.mk · (Field.others [foldingProviderField] ms))
      <$> Decoder.optional foldingProviderField FoldingProvider.decode ms

/-- Capabilities as an object. -/
def encode (style : Style) (c : ServerCapabilities) : Value :=
  (style.object [
    foldingProviderField.entry style
      (.ofOption (c.foldingProvider.map (FoldingProvider.encode style)))] c.extras).dumped

/-- Equality up to sameness of what is not known. -/
def same (a b : ServerCapabilities) : Bool :=
  a.foldingProvider == b.foldingProvider && Value.same (.obj a.extras) (.obj b.extras)

end ServerCapabilities

end FoldingProtocol
