import FoldingProtocol.CommandLine.Command
import FoldingProtocol.Decoding.Scalar
import FoldingProtocol.Text.Likeness

/-!
# Reading arguments

Arguments are sorted into switches and the rest, from left to right. What a
switch is given is looked at only after that: first a call for help, then the
switches in the order in which they first appear, the last value of each being
the one that counts. So of two faults a misspelled switch is told first, and
else the one that is further left.
-/

namespace FoldingProtocol.CommandLine

/-- Why the arguments make no command. With a name that is not known come the
known ones that are near it. -/
inductive UsageFault where
  | noSuchSwitch (name : String) (near : List String)
  | noSuchCommand (name : String) (near : List String)
  | missingCommand
  | missingArgument (name : String)
  | extraArguments (values : List String)
  | badValue (place what : String)
  | needsValue (name : String)
  | takesNoValue (name : String)
deriving DecidableEq, Repr

/-- A text between quotes. -/
def quotedText (s : String) : String := .ofList (Text.quoted s.toList)

/-- What is suggested instead of a name. -/
def suggestion : List String → String
  | [] => ""
  | [name] => " Did you mean " ++ quotedText name ++ "?"
  | names => " (Did you mean one of: " ++ ", ".intercalate (names.map quotedText) ++ "?)"

namespace UsageFault

/-- The wording of a fault. -/
def message : UsageFault → String
  | .noSuchSwitch name near => "No such option " ++ quotedText name ++ "." ++ suggestion near
  | .noSuchCommand name near => "No such command " ++ quotedText name ++ "." ++ suggestion near
  | .missingCommand => "Missing command."
  | .missingArgument name => "Missing argument '" ++ name ++ "'."
  | .extraArguments [value] => "Got unexpected extra argument (" ++ value ++ ")"
  | .extraArguments values => "Got unexpected extra arguments (" ++ " ".intercalate values ++ ")"
  | .badValue place what => "Invalid value for " ++ place ++ ": " ++ what
  | .needsValue name => "Option " ++ quotedText name ++ " requires an argument."
  | .takesNoValue name => "Option " ++ quotedText name ++ " does not take a value."

/-- Whether the usage of the command is told with the fault. -/
def showsUsage : UsageFault → Bool
  | .needsValue _ => false
  | .takesNoValue _ => false
  | _ => true

/-- All that is told about a fault in a scope. -/
def report (scope : Scope) (fault : UsageFault) : String :=
  (if fault.showsUsage then
    scope.usageLine ++ "Try '" ++ scope.title ++ " --help' for help.\n\n"
   else "") ++ "Error: " ++ fault.message ++ "\n"

end UsageFault

/-! ## Sorting -/

/-- A switch with what it was given. -/
structure Given where
  switch : Switch
  value : String
deriving DecidableEq, Repr

/-- Arguments sorted into switches and the rest. -/
structure Sorted where
  given : List Given
  rest : List String
deriving DecidableEq, Repr

/-- What an argument that starts with a dash is: switches, or a switch whose
value is still to come. -/
inductive Reading where
  | complete (given : List Given)
  | awaitsValue (switch : Switch)

/-- The letters after a single dash, each a switch. Nothing is suggested
instead of a letter. -/
def readLetters (known : List Switch) : List Char → Except UsageFault (List Given)
  | [] => .ok []
  | c :: rest =>
    match known.find? (·.letter? == some c) with
    | none => .error (.noSuchSwitch (.ofList ['-', c]) [])
    | some s => (readLetters known rest).map (⟨s, ""⟩ :: ·)

/-- Reads an argument that starts with a dash. A value may follow the spelling
of a switch behind an equals sign. -/
def readSwitch (known : List Switch) (arg : List Char) : Except UsageFault Reading :=
  let name := arg.takeWhile (· ≠ '=')
  let attached := arg.drop name.length
  match known.find? (·.spelling == .ofList name) with
  | some s =>
    match s.takesValue, attached with
    | true, _ :: value => .ok (.complete [⟨s, .ofList value⟩])
    | true, [] => .ok (.awaitsValue s)
    | false, [] => .ok (.complete [⟨s, ""⟩])
    | false, _ :: _ => .error (.takesNoValue s.spelling)
  | none =>
    if ['-', '-'].isPrefixOf arg then
      .error (.noSuchSwitch (.ofList name)
        (Text.nearNames (.ofList name) (known.map Switch.spelling)))
    else (readLetters known (arg.drop 1)).map .complete

/-- A dash with something after it. -/
def looksLikeSwitch : List Char → Bool
  | '-' :: _ :: _ => true
  | _ => false

/-- Sorts arguments. Two dashes end the switches, and so does the first other
argument unless switches may be `mixed` with the rest. -/
def sort (known : List Switch) (mixed : Bool) : List String → Except UsageFault Sorted
  | [] => .ok ⟨[], []⟩
  | arg :: rest =>
    if arg = "--" then .ok ⟨[], rest⟩
    else if looksLikeSwitch arg.toList then
      match readSwitch known arg.toList with
      | .error fault => .error fault
      | .ok (.complete given) =>
        (sort known mixed rest).map fun s => { s with given := given ++ s.given }
      | .ok (.awaitsValue switch) =>
        match rest with
        | [] => .error (.needsValue switch.spelling)
        | value :: rest =>
          (sort known mixed rest).map fun s => { s with given := ⟨switch, value⟩ :: s.given }
    else if mixed then
      (sort known mixed rest).map fun s => { s with rest := arg :: s.rest }
    else .ok ⟨[], arg :: rest⟩

namespace Sorted

/-- Whether a switch is given. -/
def has (s : Sorted) (switch : Switch) : Bool := s.given.any (·.switch == switch)

/-- The value that counts for a switch. -/
def value? (s : Sorted) (switch : Switch) : Option String :=
  (s.given.reverse.find? (·.switch == switch)).map Given.value

/-- The switches that are given, each where it first appears. -/
def switches (s : Sorted) : List Switch := (s.given.map Given.switch).eraseDups

end Sorted

/-! ## Values -/

/-- What a command was asked to do by its switches. -/
structure Settings where
  id : Int
  completeLines : Option Bool
  maximum : Option Nat
  truncate : Bool
  rejectOffsets : Bool
  init : Bool
deriving DecidableEq, Repr

/-- What a command does without switches. -/
def Settings.standard : Settings where
  id := 1
  completeLines := none
  maximum := none
  truncate := false
  rejectOffsets := false
  init := false

/-- A fault in the value of a switch. -/
def badSwitch (switch : Switch) (what : String) : UsageFault :=
  .badValue ("'" ++ switch.spelling ++ "'") what

/-- An integer. -/
def readId (value : String) : Except UsageFault Int :=
  match Numeral.readWritten value.toList with
  | .ok n => .ok n
  | .error _ => .error (badSwitch .id (quotedText value ++ " is not a valid integer."))

/-- An integer that is not negative. -/
def readMaximum (value : String) : Except UsageFault Nat :=
  match Numeral.readWritten value.toList with
  | .ok (.ofNat n) => .ok n
  | .ok (.negSucc n) =>
    .error (badSwitch .maximum
      (.ofList (Numeral.ofInt (.negSucc n)) ++ " is not in the range x>=0."))
  | .error _ =>
    .error (badSwitch .maximum (quotedText value ++ " is not a valid integer range."))

/-- The words for a truth value, the empty one among them, in order. -/
def flagWords : List String :=
  ["", "0", "1", "f", "false", "n", "no", "off", "on", "t", "true", "y", "yes"]

/-- A truth value, or none if the value is blank. -/
def readCompleteLines (value : String) : Except UsageFault (Option Bool) :=
  let word := Text.trim Text.isSeparating value.toList
  if word.isEmpty then .ok none
  else
    match Decoder.flagWord? word with
    | some b => .ok (some b)
    | none =>
      .error (badSwitch .completeLines (quotedText value ++
        " is not a valid boolean. Recognized values: " ++ ", ".intercalate flagWords))

/-- Takes up one switch. -/
def Settings.take (settings : Settings) (switch : Switch) (value : String) :
    Except UsageFault Settings :=
  match switch with
  | .id => (readId value).map fun id => { settings with id }
  | .completeLines =>
    (readCompleteLines value).map fun completeLines => { settings with completeLines }
  | .maximum => (readMaximum value).map fun n => { settings with maximum := some n }
  | .truncate => .ok { settings with truncate := true }
  | .rejectOffsets => .ok { settings with rejectOffsets := true }
  | .init => .ok { settings with init := true }
  | _ => .ok settings

/-- Takes up all switches. -/
def Sorted.settings (s : Sorted) : Except UsageFault Settings :=
  s.switches.foldlM (fun settings switch =>
    settings.take switch ((s.value? switch).getD "")) .standard

end FoldingProtocol.CommandLine
