import FoldingProtocol.Text.Character
import FoldingProtocol.Value.Literal

/-!
# Log records

A record has a level, which is a number with names, and a message. What is
shown depends on a threshold: records of at least that level.
-/

namespace FoldingProtocol.Log

/-- The levels at which this library writes records. -/
inductive Level where
  | debug
  | info
  | warning
  | error
deriving DecidableEq, Repr

/-- The weight of a level. -/
def Level.weight : Level → Nat
  | .debug => 10
  | .info => 20
  | .warning => 30
  | .error => 40

/-- The name of a level in a record. -/
def Level.name : Level → String
  | .debug => "DEBUG"
  | .info => "INFO"
  | .warning => "WARNING"
  | .error => "ERROR"

/-- A record. -/
structure Record where
  level : Level
  message : String
deriving DecidableEq, Repr

/-- The names that a threshold can be chosen by. -/
def thresholds : List (String × Nat) := [
  ("CRITICAL", 50), ("FATAL", 50), ("ERROR", 40), ("WARN", 30), ("WARNING", 30),
  ("INFO", 20), ("DEBUG", 10), ("NOTSET", 0)]

/-- The threshold of a name, in capitals or not. -/
def thresholdOfName? (name : List Char) : Option Nat :=
  thresholds.lookup (.ofList (name.map Text.asciiCapital))

/-- The threshold that a value names. Only a text can be a name. -/
def threshold? : Value → Option Nat
  | .str s => thresholdOfName? s.toList
  | _ => none

/-- The records that a threshold lets through. -/
def atLeast (threshold : Nat) (records : List Record) : List Record :=
  records.filter fun r => threshold ≤ r.level.weight

end FoldingProtocol.Log
