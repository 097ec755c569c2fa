import FoldingProtocol.Commands

/-!
# Commands and their switches

The program has four commands. Each command, and the program itself, has
switches; a switch may take a value. The help pages are laid out from this
description.
-/

namespace FoldingProtocol.CommandLine

/-- The name of the program. -/
def programName : String := "lspfold"

/-- A switch of the command line. -/
inductive Switch where
  | help
  | json
  | logLevel
  | id
  | completeLines
  | maximum
  | truncate
  | rejectOffsets
  | init
deriving DecidableEq, Repr

/-- A command of the program. -/
inductive Command where
  | request
  | ranges
  | capabilities
  | config
deriving DecidableEq, Repr

namespace Switch

/-- How a switch is spelled. -/
def spelling : Switch → String
  | .help => "--help"
  | .json => "--json"
  | .logLevel => "--log-level"
  | .id => "--id"
  | .completeLines => "--complete-lines"
  | .maximum => "--max"
  | .truncate => "--truncate"
  | .rejectOffsets => "--reject-offsets"
  | .init => "--init"

/-- The one letter that also spells a switch. -/
def letter? : Switch → Option Char
  | .help => some 'h'
  | _ => none

/-- The kind of value that a switch takes, as the help pages call it. -/
def valueName? : Switch → Option String
  | .logLevel => some "TEXT"
  | .id => some "INTEGER"
  | .completeLines => some "BOOLEAN"
  | .maximum => some "INTEGER RANGE"
  | _ => none

/-- Whether a switch takes a value. -/
def takesValue (s : Switch) : Bool := s.valueName?.isSome

/-- What a help page tells about a switch, line by line. -/
def explanation : Switch → List String
  | .help => ["Show this message and exit."]
  | .json => ["Output as JSON"]
  | .logLevel => ["Logging level (default: from config)"]
  | .id => ["JSON-RPC request id  [default: 1]"]
  | .completeLines => ["Whether the client folds complete lines only", "(default: from config)"]
  | .maximum => ["Maximum number of ranges hint  [x>=0]"]
  | .truncate => ["Cut the result down to the maximum"]
  | .rejectOffsets => ["Fail on character offsets instead of stripping them"]
  | .init => ["Write the default config file"]

end Switch

namespace Command

/-- All commands. -/
def all : List Command := [.request, .ranges, .capabilities, .config]

/-- The name of a command. -/
def name : Command → String
  | .request => "request"
  | .ranges => "ranges"
  | .capabilities => "capabilities"
  | .config => "config"

/-- The command of a name. -/
def ofName? (name : String) : Option Command := all.find? (·.name == name)

/-- The order in which commands are listed. -/
def order : List String := ["request", "ranges", "capabilities", "config"]

/-- The commands as they are listed. -/
def listed : List Command := (orderedNames order (all.map name)).filterMap ofName?

/-- The switches of a command, in the order of its help page. -/
def switches : Command → List Switch
  | .request => [.id, .help]
  | .ranges => [.completeLines, .maximum, .truncate, .rejectOffsets, .help]
  | .capabilities => [.help]
  | .config => [.init, .help]

/-- The argument of a command, as its help page calls it. -/
def argument? : Command → Option String
  | .request => some "PATH"
  | .ranges => some "RESPONSE"
  | _ => none

/-- What a command does, in a line. -/
def summary : Command → String
  | .request => "Print the folding-ranges JSON-RPC request for PATH."
  | .ranges => "Decode a folding-ranges RESPONSE and print its ranges."
  | .capabilities => "Print the client capabilities advertised for folding ranges."
  | .config => "Print config file location and contents."

/-- What else a help page tells about a command, line by line. -/
def details : Command → List String
  | .ranges => [
    "RESPONSE is a JSON file holding either a full JSON-RPC response message or a",
    "bare result (`\x7b\"ranges\": [...]\x7d` or `null`). Use `-` for stdin."]
  | _ => []

end Command

/-- The switches of the program itself. -/
def programSwitches : List Switch := [.json, .logLevel, .help]

/-- What the program does, in a line. -/
def programSummary : String := "Work with textDocument/foldingRanges requests and responses."

/-- What else the help page of the program tells, line by line. -/
def programDetails : List String := [
  "Use `lspfold request FILE` to build the JSON-RPC request for a document and",
  "`lspfold ranges RESPONSE` to decode a server's answer, applying the client's",
  "folding capabilities from the config file."]

/-! ## Pages -/

/-- Where a switch is used: in the program itself, or in one of its commands. -/
abbrev Scope := Option Command

namespace Scope

/-- The program with the command, as it is typed. -/
def title : Scope → String
  | none => programName
  | some c => programName ++ " " ++ c.name

/-- The switches of a scope. -/
def switches : Scope → List Switch
  | none => programSwitches
  | some c => c.switches

/-- What may follow the title. -/
def usage : Scope → String
  | none => "[OPTIONS] COMMAND [ARGS]..."
  | some c =>
    match c.argument? with
    | some argument => "[OPTIONS] " ++ argument
    | none => "[OPTIONS]"

/-- The line that shows how a scope is used. -/
def usageLine (s : Scope) : String := "Usage: " ++ s.title ++ " " ++ s.usage ++ "\n"

end Scope

/-- Blanks. -/
def blanks (n : Nat) : String := .ofList (List.replicate n ' ')

/-- A list of terms with their explanations, which all start in one column. -/
def definitionList (entries : List (String × List String)) : String :=
  let width := (entries.map fun (term, _) => term.length).foldl max 0
  String.join <| entries.map fun (term, lines) =>
    let first := "  " ++ term ++ blanks (width - term.length + 2)
    first ++ ("\n" ++ blanks (width + 4)).intercalate lines ++ "\n"

/-- How a help page writes a switch. -/
def Switch.term (s : Switch) : String :=
  let letter := match s.letter? with
    | some c => "-" ++ .ofList [c] ++ ", "
    | none => ""
  let value := match s.valueName? with
    | some name => " " ++ name
    | none => ""
  letter ++ s.spelling ++ value

/-- Lines of a help page's text. -/
def paragraph (lines : List String) : String :=
  String.join (lines.map fun line => "  " ++ line ++ "\n")

/-- The help page of a scope. -/
def helpPage (s : Scope) : String :=
  let (summary, details) := match s with
    | none => (programSummary, programDetails)
    | some c => (c.summary, c.details)
  s.usageLine ++ "\n" ++ paragraph [summary] ++
    (if details.isEmpty then "" else "\n" ++ paragraph details) ++
    "\nOptions:\n" ++ definitionList (s.switches.map fun x => (x.term, x.explanation)) ++
    match s with
    | none =>
      "\nCommands:\n" ++ definitionList (Command.listed.map fun c => (c.name, [c.summary]))
    | some _ => ""

end FoldingProtocol.CommandLine
