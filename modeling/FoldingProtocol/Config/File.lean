import FoldingProtocol.Config.Basic
import FoldingProtocol.Text.Utf8
import FoldingProtocol.Toml.Writer
import FoldingProtocol.Uri.FilePath

/-!
# The configuration file

Where the file is, what it says, and what is written to it. Without a file the
defaults hold. Writing replaces the whole file; if the settings hold something
that cannot be written, the file is left with what came before it.
-/

namespace FoldingProtocol.Config

/-- The directory of the file: inside the one set for configurations or, if none
is set, inside the hidden one of the home directory. A home directory that
starts with a tilde is none. -/
def directory? (configHome : Option (List Char)) (home : List Char) : Option FilePath :=
  let name := "lspfold".toList
  match configHome with
  | some (c :: rest) => some ((FilePath.ofText (c :: rest)).child name)
  | _ =>
    let home := (home.reverse.dropWhile (· == '/')).reverse
    let home := if home.isEmpty then ['/'] else home
    if ['~'].isPrefixOf home then none
    else some (((FilePath.ofText home).child ".config".toList).child name)

/-- The path of the file in its directory. -/
def fileIn (directory : FilePath) : FilePath := directory.child "config.toml".toList

/-- Why a file was not loaded. -/
inductive LoadFault where
  | notText
  | unreadable (path : FilePath) (whole : List Char) (problem : Toml.Problem)
      (rest : List Char)
  | digits (count : Nat)
  | invalid (fault : Fault)

/-- What is said about it. -/
def LoadFault.message : LoadFault → String
  | .notText => "not UTF-8"
  | .unreadable path whole problem rest =>
    "Invalid config file " ++ .ofList path.text ++ ": " ++
      (Toml.Fault.grammar problem rest).message whole
  | .digits count => (Toml.Fault.digits count).message []
  | .invalid fault => fault.message

/-- The settings in a file. -/
def readFile (path : FilePath) (contents : Utf8.Bytes) : Except LoadFault Members :=
  match Utf8.decode? contents with
  | none => .error .notText
  | some cs =>
    let whole := Toml.joinLineEnds cs
    match Toml.read whole with
    | .ok settings => .ok settings
    | .error (.grammar problem rest) => .error (.unreadable path whole problem rest)
    | .error (.digits count) => .error (.digits count)

/-- The configuration that a file, or the lack of one, makes. -/
def load (path : FilePath) (contents : Option Utf8.Bytes) : Except LoadFault Members := do
  let settings ← match contents with
    | none => .ok []
    | some bytes => readFile path bytes
  let config := merge defaults settings
  match check config with
  | .ok () => .ok config
  | .error fault => .error (.invalid fault)

/-- The new contents of the file, and what kept a part of the settings out of it. -/
def save (config : Members) : Utf8.Bytes × Option Toml.Unwritable :=
  let written := Toml.write config
  (Utf8.encode written.text, written.fault)

end FoldingProtocol.Config
