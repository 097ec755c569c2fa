import FoldingProtocol.Log
import FoldingProtocol.Value.Basic

/-!
# Configuration

A configuration is a table of sections. A file gives the settings that differ
from the defaults; the two are merged table by table, so a file need not repeat
a section to change one of its settings. The result is checked before it is
used.
-/

namespace FoldingProtocol.Config

/-- The settings of a file that sets nothing. -/
def defaults : Members := [
  ("logging", .obj [("level", .str "warning")]),
  ("folding", .obj [
    ("dynamic_registration", .bool false),
    ("maximum_number_of_ranges", .int 5000),
    ("complete_line_folding_only", .bool false),
    ("on_character_offsets", .str "strip"),
    ("truncate", .bool false)])]

mutual

/-- A setting over what was there before. Where both are tables the two are
merged; anything else takes the place of what was there. -/
def settingOver (old : Option Value) : Value → Value
  | .obj more =>
    match old with
    | some (.obj base) => .obj (merge base more)
    | _ => .obj more
  | v => v
termination_by structural v => v

/-- A table with the settings of a second one over it, one after the other. -/
def merge (base : Members) : (more : List (String × Value)) → Members
  | [] => base
  | (key, v) :: rest => merge (base.put key (settingOver (base.get? key) v)) rest
termination_by structural more => more

end

/-- What to do with offsets, by name. -/
def policies : List String := ["strip", "reject"]

/-- Why a configuration is not used: a setting has a value that it may not
have, such a value cannot be shown, or a section is no table. -/
inductive Fault where
  | policy (v : Value)
  | maximum (v : Value)
  | level (v : Value)
  | notShowable
  | noSection

/-- What is said about a setting. -/
def Fault.message : Fault → String
  | .policy v =>
    "folding.on_character_offsets must be one of " ++ ", ".intercalate policies ++
      ", got " ++ v.literalText
  | .maximum v =>
    "folding.maximum_number_of_ranges must be a non-negative integer, got " ++ v.literalText
  | .level v => "Unknown logging.level: " ++ v.literalText
  | .notShowable => Numeral.notShowable
  | .noSection => "not a table"

/-- The fault of a value, which is to be shown. -/
def Fault.showing (fault : Value → Fault) (v : Value) : Fault :=
  if v.isShowable then fault v else .notShowable

/-- The members of a section; a section left out is empty. -/
def section? (config : Members) (name : String) : Except Fault Members :=
  match config.get? name with
  | none => .ok []
  | some (.obj ms) => .ok ms
  | some _ => .error .noSection

/-- A known name for what to do with offsets. -/
def isPolicy : Value → Bool
  | .str s => policies.contains s
  | _ => false

/-- A greatest number of ranges, or none. -/
def isMaximum : Value → Bool
  | .null => true
  | .int n => 0 ≤ n
  | _ => false

/-- Checks the settings that this library relies on. -/
def check (config : Members) : Except Fault Unit := do
  let folding ← section? config "folding"
  let policy := (folding.get? "on_character_offsets").getD (.str "strip")
  if !isPolicy policy then .error (.showing .policy policy)
  let maximum := Value.ofOption (folding.get? "maximum_number_of_ranges")
  if !isMaximum maximum then .error (.showing .maximum maximum)
  let logging ← section? config "logging"
  let level := (logging.get? "level").getD (.str "warning")
  if (Log.threshold? level).isNone then .error (.showing .level level)

/-- Checks a value as a configuration. -/
def checkValue : Value → Except Fault Unit
  | .obj config => check config
  | _ => .error .noSection

end FoldingProtocol.Config
