import FoldingProtocol.Decoding.Basic
import FoldingProtocol.Decoding.Integer

/-!
# Decoding scalars

Numbers and truth values are read generously: a truth value is the number zero
or one, a double without a fraction is an integer, and either may be spelled
out in a text. Texts are read as they are, and nothing else is a text.
-/

namespace FoldingProtocol.Decoder

/-- A text. -/
def text : Decoder String
  | .str s => .accepted s
  | v => .refuse .notText v

/-! ## Integers -/

/-- The bound of the integers that doubles are taken for, two to the power of 63. -/
def wordBound : Int := 9223372036854775808

/-- The integer that a double is. -/
def wholeFloat (x : Binary64) : Except Issue.Kind Int :=
  if !x.isFinite then .error .notFinite
  else if !x.isIntegral then .error .fractionalInteger
  else if -wordBound < x.truncate ∧ x.truncate < wordBound then .ok x.truncate
  else .error .oversizedInteger

/-- The integer that a value can be taken for. -/
def toInteger : Value → Except Issue.Kind Int
  | .bool b => .ok b.toInt
  | .int n => .ok n
  | .float x => wholeFloat x
  | .str s => readInteger s
  | _ => .error .notInteger

/-- A count: an integer that is not negative. -/
def count : Decoder Nat := fun v =>
  match toInteger v with
  | .error kind => .refuse kind v
  | .ok (.ofNat n) => .accepted n
  | .ok (.negSucc _) => .refuse .negative v

/-! ## Truth values -/

/-- Words for true. -/
def yesWords : List String := ["1", "on", "t", "true", "y", "yes"]

/-- Words for false. -/
def noWords : List String := ["0", "off", "f", "false", "n", "no"]

/-- The truth value that a word of either list names, in any case. -/
def flagWord? (cs : List Char) : Option Bool :=
  let word := String.ofList (cs.map Text.lowerAscii)
  if yesWords.contains word then some true
  else if noWords.contains word then some false
  else none

/-- The truth value that a number is. -/
def flagNumber (n : Int) : Except Issue.Kind Bool :=
  if n = 0 then .ok false else if n = 1 then .ok true else .error .unreadableFlag

/-- The truth value that a value can be taken for. -/
def toFlag : Value → Except Issue.Kind Bool
  | .bool b => .ok b
  | .int n =>
    if -wordBound ≤ n ∧ n < wordBound then flagNumber n else .error .notFlag
  | .float x =>
    if x.isIntegral ∧ -wordBound < x.truncate ∧ x.truncate < wordBound then
      flagNumber x.truncate
    else .error .notFlag
  | .str s =>
    match flagWord? s.toList with
    | some b => .ok b
    | none => .error .unreadableFlag
  | _ => .error .notFlag

/-- A truth value. -/
def flag : Decoder Bool := fun v =>
  match toFlag v with
  | .error kind => .refuse kind v
  | .ok b => .accepted b

end FoldingProtocol.Decoder
