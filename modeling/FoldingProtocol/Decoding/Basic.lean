import FoldingProtocol.Issue
import FoldingProtocol.Range.Basic

/-!
# Decoding

Decoding a value either accepts it, or rejects it with every issue found, or
meets a range that starts after it ends. The parts of a value are decoded side
by side, not one after the other: issues of all parts are collected in order.
A malformed range is a broken promise of the peer and not a matter of shape; it
ends the decoding where it is met, and issues found before it are dropped.
-/

namespace FoldingProtocol

/-- What decoding comes to. -/
inductive Decoded (α : Type) where
  | accepted (a : α)
  | rejected (issues : List Issue)
  | malformed (span : Span)

/-- A way to decode a value. -/
abbrev Decoder (α : Type) := Value → Decoded α

namespace Decoded

variable {α β : Type}

/-- Changes what was accepted. -/
def map (f : α → β) : Decoded α → Decoded β
  | .accepted a => .accepted (f a)
  | .rejected issues => .rejected issues
  | .malformed span => .malformed span

/-- Decodes two parts: a malformed range wins, the first one if there are two;
else the issues of both count. -/
def both (first : Decoded (α → β)) (second : Unit → Decoded α) : Decoded β :=
  match first with
  | .accepted f => (second ()).map f
  | .malformed span => .malformed span
  | .rejected issues =>
    match second () with
    | .accepted _ => .rejected issues
    | .rejected more => .rejected (issues ++ more)
    | .malformed span => .malformed span

instance : Functor Decoded where
  map := map

instance : Applicative Decoded where
  pure := .accepted
  seq := both

/-- Goes on from what was accepted, with a check on the whole. -/
def check (d : Decoded α) (next : α → Decoded β) : Decoded β :=
  match d with
  | .accepted a => next a
  | .rejected issues => .rejected issues
  | .malformed span => .malformed span

/-- The outcome as seen from one step further out. -/
def under (step : Step) : Decoded α → Decoded α
  | .accepted a => .accepted a
  | .rejected issues => .rejected (issues.map (·.under step))
  | .malformed span => .malformed span

/-- A rejection with a single issue, at the value itself. -/
def refuse (kind : Issue.Kind) (input : Value) : Decoded α := .rejected [⟨kind, [], input⟩]

end Decoded

/-! ## Members -/

/-- A member of an object of the protocol. Messages use its wire name; its
field name is accepted in place of that. -/
structure Field where
  wire : String
  name : String

namespace Field

/-- A field with one name. -/
def plain (name : String) : Field := ⟨name, name⟩

/-- The key under which a field is found, and its value; the wire name is
looked for first. -/
def find? (field : Field) (ms : Members) : Option (String × Value) :=
  match ms.get? field.wire with
  | some v => some (field.wire, v)
  | none => (ms.get? field.name).map (field.name, ·)

variable {α : Type}

/-- A member that has to be there. -/
def required (field : Field) (decode : Decoder α) (ms : Members) : Decoded α :=
  match field.find? ms with
  | some (key, v) => (decode v).under (.member key)
  | none => .rejected [⟨.missing, [.member field.wire], .obj ms⟩]

/-- A member that may be left out; `absent` stands for it then. -/
def defaulted (field : Field) (absent : α) (decode : Decoder α) (ms : Members) : Decoded α :=
  match field.find? ms with
  | some (key, v) => (decode v).under (.member key)
  | none => .accepted absent

/-- The members that no field of a list takes. -/
def others (fields : List Field) (ms : Members) : Members :=
  let taken := fields.filterMap fun field => (field.find? ms).map Prod.fst
  ms.filter fun (key, _) => !taken.contains key

end Field

/-! ## Shapes -/

namespace Decoder

variable {α : Type}

/-- Null or something. -/
def nullable (decode : Decoder α) : Decoder (Option α)
  | .null => .accepted none
  | v => (decode v).map some

/-- A member that may be left out or null. -/
def optional (field : Field) (decode : Decoder α) (ms : Members) : Decoded (Option α) :=
  field.defaulted none (nullable decode) ms

/-- The items of an array from a place on. -/
def itemsFrom (decode : Decoder α) : (place : Nat) → List Value → Decoded (List α)
  | _, [] => .accepted []
  | place, v :: rest =>
    List.cons <$> (decode v).under (.index place) <*> itemsFrom decode (place + 1) rest

/-- An array. -/
def list (decode : Decoder α) : Decoder (List α)
  | .arr items => itemsFrom decode 0 items
  | v => .refuse .notList v

/-- An object, named `model` where that is said. -/
def object (model : String) (decode : Members → Decoded α) : Decoder α
  | .obj members => decode members
  | v => .refuse (.notObject model) v

/-- The first way that accepts the value. If none does, the issues of all count,
each under the name of its way. -/
def firstOf : List (String × Decoder α) → Decoder α
  | [], _ => .rejected []
  | (label, decode) :: rest, v =>
    match (decode v).under (.member label) with
    | .accepted a => .accepted a
    | .malformed span => .malformed span
    | .rejected issues =>
      match firstOf rest v with
      | .rejected more => .rejected (issues ++ more)
      | outcome => outcome

end Decoder

/-- Why a value was not taken. -/
inductive Refusal where
  | rejected (report : Report)
  | malformed (range : MalformedRange)

/-- What is said about a refusal. -/
def Refusal.message : Refusal → String
  | .rejected report => report.text
  | .malformed range => range.message

/-- The outcome of decoding a whole value under a title. -/
def Decoded.titled {α : Type} (title : String) : Decoded α → Except Refusal α
  | .accepted a => .ok a
  | .rejected issues => .error (.rejected ⟨title, issues⟩)
  | .malformed span => .error (.malformed (.startsAfterEnd span))

end FoldingProtocol
