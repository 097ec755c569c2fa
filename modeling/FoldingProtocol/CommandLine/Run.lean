import FoldingProtocol.Capabilities.Apply
import FoldingProtocol.Capabilities.Client
import FoldingProtocol.CommandLine.Arguments
import FoldingProtocol.Config.File
import FoldingProtocol.FileTree
import FoldingProtocol.Json.Reader
import FoldingProtocol.Output
import FoldingProtocol.Rpc.Response
import FoldingProtocol.Text.Control
import FoldingProtocol.Uri.File

/-!
# Running the program

A run is a function of what the program finds: its arguments, its input, a tree
of files, where it stands in that tree, and where its configuration is. It gives
what is printed, the exit code, and the tree as it is afterwards. The tree
changes in one case only, when a configuration file is made where there is none.

A run stops early for help, for arguments that make no command, and for failures
that are told in one line. What the program is not prepared for escapes.

Texts in a response may hold halves of pairs. So all that is made of a response has
marked texts, until it is printed: what is shown has no place for a half, and what is
told of a failure has escapes for them.
-/

namespace FoldingProtocol.CommandLine

/-- What the program finds when it is run. -/
structure Environment where
  directory : List (List Char)
  configPath : FilePath
  files : FileTree
  input : Utf8.Bytes
  timestamp : String

/-- What the program is not prepared for. -/
inductive Escape where
  | refused (r : Refusal)
  | noMembers
  | notText
  | tornText
  | badValue (message : String)
  | isDirectory
  | notDirectory
  | fileExists

/-- Why a run stops early. The message of a rejection is about a response, and so it
is marked. -/
inductive Stop where
  | help (scope : Scope)
  | noArguments
  | usage (scope : Scope) (fault : UsageFault)
  | failure (message : String)
  | rejection (message : String)
  | escape (e : Escape)

/-- What a command does: what it prints, what it logs, the tree after it, and how the
printed text is stored. -/
structure Effect where
  output : String
  records : List Log.Record
  files : FileTree
  storage : Text.Storage

/-- What a run comes to. -/
structure Result where
  exitCode : Nat
  output : String
  errors : String
  escaped : Option Escape
  files : FileTree

/-! ## Files -/

/-- Text with the ends of its lines made alike. -/
def unifyLineEnds : List Char → List Char
  | '\r' :: '\n' :: rest => '\n' :: unifyLineEnds rest
  | '\r' :: rest => '\n' :: unifyLineEnds rest
  | c :: rest => c :: unifyLineEnds rest
  | [] => []

/-- The text of some contents. -/
def readText (contents : Utf8.Bytes) : Except Stop (List Char) :=
  match Utf8.decode? contents with
  | some cs => .ok (unifyLineEnds cs)
  | none => .error (.escape .notText)

namespace Environment

/-- What is at the path of the configuration. -/
def configFound (env : Environment) : FileTree.Found :=
  env.files.look env.directory env.configPath.text

/-- The place of the configuration in the tree. -/
def configPlace (env : Environment) : List (List Char) :=
  env.configPath.resolve env.directory

/-- The configuration. -/
def config (env : Environment) : Except Stop Members := do
  let contents ← match env.configFound with
    | .file contents => .ok (some contents)
    | .directory => .error (.escape .isDirectory)
    | _ => .ok none
  match Config.load env.configPath contents with
  | .ok config => .ok config
  | .error .notText => .error (.escape .notText)
  | .error (.digits count) => .error (.escape (.badValue (Config.LoadFault.digits count).message))
  | .error (.invalid .noSection) => .error (.escape .noMembers)
  | .error (.invalid .notShowable) => .error (.escape (.badValue Config.Fault.notShowable.message))
  | .error fault => .error (.failure fault.message)

/-- The tree with a configuration in it, if its directory can be made. -/
def saveConfig (env : Environment) (config : Members) : Except Stop FileTree :=
  let place := env.configPlace
  let isFile (p : List (List Char)) : Bool := (env.files.get? p).isSome
  let holder := place.dropLast
  if (List.range holder.length).any fun n => isFile (holder.take n) then
    .error (.escape .notDirectory)
  else if isFile holder then .error (.escape .fileExists)
  else .ok (env.files.put place (Config.save config).1)

/-- The text that the argument of a command leads to, and its name in
messages. -/
def source (env : Environment) (path : String) : Except Stop (String × Utf8.Bytes) :=
  if path = "-" then .ok ("<stdin>", env.input)
  else if path.toList.contains '\x00' then .error (.escape (.badValue Uri.nullMessage))
  else
    let refuse (what : String) : Except Stop (String × Utf8.Bytes) :=
      .error (.usage (some .ranges) (.badValue "'RESPONSE'" ("'" ++ path ++ "': " ++ what)))
    match env.files.look env.directory path.toList with
    | .file contents => .ok (path, contents)
    | .directory => refuse "Is a directory"
    | .missing => refuse "No such file or directory"
    | .throughFile => refuse "Not a directory"

end Environment

/-! ## Commands -/

/-- A text that is shown, if its numbers can be. -/
def shown : Option String → Except Stop String
  | some text => .ok text
  | none => .error (.escape (.badValue Numeral.notShowable))

/-- Prints the request for a document. -/
def runRequest (env : Environment) (json : Bool) (settings : Settings) (path : String) :
    Except Stop Effect := do
  match Uri.document? env.directory path.toList with
  | none => .error (.escape (.badValue Uri.nullMessage))
  | some document =>
    let message := FoldingRequest.toMessage ⟨document⟩ (.int settings.id)
    let text ← shown (if json then Json.pretty? .plain message else Json.compact? .plain message)
    .ok ⟨text ++ "\n", [], env.files, .plain⟩

/-- Whether the argument leads to a document. -/
def checkDocument (env : Environment) (path : String) : Except Stop Unit :=
  let refuse (what : String) : Except Stop Unit :=
    .error (.usage (some .request) (.badValue "'PATH'"
      ("File " ++ quotedText path ++ " " ++ what)))
  if path.toList.contains '\x00' then .error (.escape (.badValue Uri.nullMessage))
  else
    match env.files.look env.directory path.toList with
    | .file _ => .ok ()
    | .directory => refuse "is a directory."
    | _ => refuse "does not exist."

/-- The value that a file of JSON holds. -/
def readJson (name : String) (contents : Utf8.Bytes) : Except Stop Value := do
  let cs ← readText contents
  match Json.read cs with
  | .ok v => .ok v
  | .error (.digits count) => .error (.escape (.badValue (Json.Fault.digits count |>.message cs)))
  | .error fault => .error (.failure ("Invalid JSON in " ++ name ++ ": " ++ fault.message cs))

/-- What is told about an error in an answer. -/
def errorMessage (e : Rpc.ResponseError) : String :=
  let message := e.message.shownTextIn .marked
  if e.isMethodNotFound then
    "Server does not support " ++ FoldingRequest.method ++ ": " ++ message
  else
    "Server returned an error: " ++ message ++ " (code " ++ e.code.shownTextIn .marked ++ ")"

/-- How a run stops at a message that gives no result. -/
def failureStop : FoldingRequest.Failure → Stop
  | .notResponse => .rejection FoldingRequest.notResponseMessage
  | .malformedError e => .rejection (FoldingRequest.malformedErrorMessage .marked e)
  | .error e => .rejection (errorMessage e)
  | .notShowable => .escape (.badValue Numeral.notShowable)
  | .refused (.rejected report) =>
    .rejection ("Invalid folding-ranges result: " ++ report.textIn .marked)
  | .refused (.malformed range) => .rejection range.message

/-- The result in a value: a whole answer, or a bare result. -/
def decodeAnswer (v : Value) :
    Except FoldingRequest.Failure (Option FoldingRangeList) :=
  match v with
  | .obj ms =>
    if Members.has "jsonrpc" ms then FoldingRequest.decodeResponse v
    else (FoldingRequest.decodeResult v).mapError .refused
  | _ => (FoldingRequest.decodeResult v).mapError .refused

/-- A setting of the folding section. -/
def foldingSetting (config : Members) (name : String) : Value :=
  match config.get? "folding" with
  | some (.obj folding) => .ofOption (Members.get? name folding)
  | _ => .null

/-- The client capabilities that switches and configuration make. -/
def clientCapabilities (config : Members) (settings : Settings) :
    Except Refusal FoldingClientCapabilities :=
  FoldingClientCapabilities.ofSettings [
    ("complete_line_folding_only",
      match settings.completeLines with
      | some b => .bool b
      | none => foldingSetting config "complete_line_folding_only"),
    ("maximum_number_of_ranges",
      match settings.maximum with
      | some n => .ofNat n
      | none => foldingSetting config "maximum_number_of_ranges")]

/-- What to do with offsets. -/
def offsetPolicy (config : Members) (settings : Settings) : OffsetPolicy :=
  if settings.rejectOffsets then .reject
  else
    match foldingSetting config "on_character_offsets" with
    | .str name => .ofName name
    | _ => .strip

/-- Prints the ranges in an answer, fitted to the client. -/
def runRanges (env : Environment) (json : Bool) (settings : Settings)
    (source : String × Utf8.Bytes) : Except Stop Effect := do
  let config ← env.config
  let v ← readJson source.1 source.2
  let result ← (decodeAnswer v).mapError failureStop
  let capabilities ← (clientCapabilities config settings).mapError fun r => .escape (.refused r)
  let truncate := settings.truncate || (foldingSetting config "truncate").isTruthy
  let (result, records) ←
    (capabilities.apply (offsetPolicy config settings) truncate result).mapError fun r =>
      .failure r.message
  let text ← shown ((Output.ofRanges result).render .marked (if json then .json else .plain))
  .ok ⟨text ++ "\n", records, env.files, .marked⟩

/-- Prints the capabilities that the client advertises. -/
def runCapabilities (env : Environment) : Except Stop Effect := do
  let config ← env.config
  match ClientCapabilities.ofConfig (.obj config) with
  | .ok capabilities =>
    let text ← shown (Json.pretty? .plain (capabilities.encode .wire))
    .ok ⟨text ++ "\n", [], env.files, .plain⟩
  | .error (.refused r) => .error (.escape (.refused r))
  | .error .noMembers => .error (.escape .noMembers)

/-- Makes a configuration file, or prints the one there is. -/
def runConfig (env : Environment) (settings : Settings) : Except Stop Effect := do
  let path := String.ofList env.configPath.text
  let head := "Config file: " ++ path ++ "\n\n"
  match env.configFound, settings.init with
  | .file _, true => .error (.failure ("Config file already exists: " ++ path))
  | .directory, true => .error (.failure ("Config file already exists: " ++ path))
  | _, true =>
    let files ← env.saveConfig Config.defaults
    .ok ⟨"Wrote default config to " ++ path ++ "\n", [], files, .plain⟩
  | .file contents, false =>
    .ok ⟨head ++ .ofList (← readText contents) ++ "\n", [], env.files, .plain⟩
  | .directory, false => .error (.escape .isDirectory)
  | _, false => .ok ⟨head ++ "(file does not exist, using defaults)\n", [], env.files, .plain⟩

/-! ## The program -/

/-- Checks that nothing is left over. -/
def noExtras (command : Command) : List String → Except Stop Unit
  | [] => .ok ()
  | extras => .error (.usage (some command) (.extraArguments extras))

/-- The argument of a command, and what is left over. -/
def takeArgument (command : Command) : List String → Except Stop (String × List String)
  | [] => .error (.usage (some command) (.missingArgument (command.argument?.getD "")))
  | value :: rest => .ok (value, rest)

/-- Runs a command on its arguments. -/
def runCommand (env : Environment) (json : Bool) (command : Command) (args : List String) :
    Except Stop Effect := do
  let usage (fault : UsageFault) : Stop := .usage (some command) fault
  let sorted ← (sort command.switches true args).mapError usage
  if sorted.has .help then .error (.help (some command))
  let settings ← sorted.settings.mapError usage
  match command with
  | .request =>
    let (path, extras) ← takeArgument command sorted.rest
    checkDocument env path
    noExtras command extras
    runRequest env json settings path
  | .ranges =>
    let (path, extras) ← takeArgument command sorted.rest
    let source ← env.source path
    noExtras command extras
    runRanges env json settings source
  | .capabilities =>
    noExtras command sorted.rest
    runCapabilities env
  | .config =>
    noExtras command sorted.rest
    runConfig env settings

/-- The level from which on records are shown. -/
def threshold (env : Environment) (sorted : Sorted) : Except Stop Nat := do
  let level ← match sorted.value? .logLevel with
    | some name => .ok (.str name)
    | none =>
      let config ← env.config
      match config.get? "logging" with
      | some (.obj logging) => .ok (Value.ofOption (Members.get? "level" logging))
      | _ => .ok .null
  match Log.threshold? level with
  | some n => .ok n
  | none =>
    .error (.usage none (.badValue "--log-level" ("Unknown log level: " ++ level.shownText)))

/-- Sorts the arguments of the program itself. -/
def sortProgram (args : List String) : Except Stop Sorted := do
  let sorted ← (sort programSwitches false args).mapError (.usage none)
  if sorted.has .help then .error (.help none) else .ok sorted

/-- The command of a name. A name that looks like a switch is read as one before
it is refused. -/
def findCommand (args : List String) : Except Stop (Command × List String) :=
  match args with
  | [] => .error (.usage none .missingCommand)
  | name :: rest =>
    match Command.ofName? name with
    | some command => .ok (command, rest)
    | none => do
      if looksLikeSwitch name.toList then
        let _ ← sortProgram args
      .error (.usage none
        (.noSuchCommand name (Text.nearNames name (Command.all.map Command.name))))

/-- Runs the program, and tells from which level on its records are shown. -/
def runProgram (env : Environment) (args : List String) : Except Stop (Nat × Effect) := do
  if args.isEmpty then .error .noArguments
  let sorted ← sortProgram args
  let (command, rest) ← findCommand sorted.rest
  let level ← threshold env sorted
  let effect ← runCommand env (sorted.has .json) command rest
  .ok (level, effect)

/-- Where records come from. -/
def logger : String := "lspfold.lsp.capabilities"

/-- A record on a line. -/
def recordLine (timestamp : String) (r : Log.Record) : String :=
  timestamp ++ " - " ++ logger ++ " - " ++ r.level.name ++ " - " ++ r.message ++ "\n"

/-- A text as it is printed, which is without control sequences. -/
def printed (text : String) : String := .ofList (Text.withoutControls text.toList)

/-- A stored text as it is printed, if it has no halves, which the printer has no
characters for. -/
def printedIn (storage : Text.Storage) (text : String) : Option String :=
  (storage.plainly? (Text.withoutControls text.toList)).map .ofList

/-- A stored text as it is told, with escapes for its halves. -/
def toldIn (storage : Text.Storage) (text : String) : String :=
  .ofList (storage.told (Text.withoutControls text.toList))

/-- What a run that stopped early comes to. -/
def Stop.result (files : FileTree) : Stop → Result
  | .help scope => ⟨0, helpPage scope, "", none, files⟩
  | .noArguments => ⟨2, "", helpPage none, none, files⟩
  | .usage scope fault => ⟨2, "", printed (fault.report scope), none, files⟩
  | .failure message => ⟨1, "", printed ("Error: " ++ message ++ "\n"), none, files⟩
  | .rejection message => ⟨1, "", toldIn .marked ("Error: " ++ message ++ "\n"), none, files⟩
  | .escape e => ⟨1, "", "", some e, files⟩

/-- What a run comes to that did what its command does: a text is printed or, with a
half in it, not at all. -/
def Effect.result (errors : String) (effect : Effect) : Result :=
  match printedIn effect.storage effect.output with
  | some output => ⟨0, output, errors, none, effect.files⟩
  | none => ⟨1, "", errors, some .tornText, effect.files⟩

/-- Runs the program. Of what it prints, only the records keep their control
sequences. -/
def run (env : Environment) (args : List String) : Result :=
  match runProgram env args with
  | .ok (level, effect) =>
    let records := Log.atLeast level effect.records
    effect.result (String.join (records.map (recordLine env.timestamp)))
  | .error stop => stop.result env.files

end FoldingProtocol.CommandLine
