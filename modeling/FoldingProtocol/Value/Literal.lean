import FoldingProtocol.Number.Shortest
import FoldingProtocol.Text.Quoted
import FoldingProtocol.Value.Basic

/-!
# Values in messages

How a value is shown inside a sentence: texts between quotes, containers on one
line. `shown` differs only for a text standing alone, which needs no quotes. An
integer of very many digits is not shown at all. The texts in a value are plain, or
they are marked, as texts are that were read from files.
-/

namespace FoldingProtocol.Value

/-- Doubles in messages. -/
def messageSpelling : Binary64.Spelling := ⟨"nan", "inf"⟩

mutual

/-- A value as it stands inside a message, its texts stored in some way. -/
def literalIn (storage : Text.Storage) : Value → List Char
  | .null => "None".toList
  | .bool true => "True".toList
  | .bool false => "False".toList
  | .int n => Numeral.ofInt n
  | .float x => x.render messageSpelling
  | .str s => Text.quotedIn storage s.toList
  | .moment m => m.literal
  | .arr items => '[' :: literalItems storage items ++ [']']
  | .obj members => '{' :: literalMembers storage members ++ ['}']
termination_by structural v => v

/-- Items with commas between them. -/
def literalItems (storage : Text.Storage) : List Value → List Char
  | [] => []
  | v :: rest =>
    literalIn storage v ++
      (if rest.isEmpty then [] else [',', ' '] ++ literalItems storage rest)
termination_by structural vs => vs

/-- Members with commas between them. -/
def literalMembers (storage : Text.Storage) : List (String × Value) → List Char
  | [] => []
  | (k, v) :: rest =>
    Text.quotedIn storage k.toList ++ ':' :: ' ' :: literalIn storage v ++
      (if rest.isEmpty then [] else [',', ' '] ++ literalMembers storage rest)
termination_by structural ms => ms

end

mutual

/-- A value that can be shown: none of its integers has more digits than a numeral
may have. -/
def isShowable : Value → Bool
  | .int n => Numeral.isShowable n
  | .arr items => areShowable items
  | .obj members => haveShowable members
  | .null | .bool _ | .float _ | .str _ | .moment _ => true
termination_by structural v => v

/-- Items that can all be shown. -/
def areShowable : List Value → Bool
  | [] => true
  | v :: rest => isShowable v && areShowable rest
termination_by structural vs => vs

/-- Members whose values can all be shown. -/
def haveShowable : List (String × Value) → Bool
  | [] => true
  | (_, v) :: rest => isShowable v && haveShowable rest
termination_by structural ms => ms

end

/-- A value as it stands alone: a text is itself, in the way it is stored, and a
moment is written out. -/
def shownIn (storage : Text.Storage) : Value → List Char
  | .str s => s.toList
  | .moment m => m.render ' '
  | v => v.literalIn storage

/-- `literalIn` as a text. -/
def literalTextIn (storage : Text.Storage) (v : Value) : String := .ofList (v.literalIn storage)

/-- `shownIn` as a text. -/
def shownTextIn (storage : Text.Storage) (v : Value) : String := .ofList (v.shownIn storage)

/-- A value with plain texts inside a message. -/
def literalText (v : Value) : String := v.literalTextIn .plain

/-- A value with plain texts that stands alone. -/
def shownText (v : Value) : String := v.shownTextIn .plain

end FoldingProtocol.Value
