import FoldingProtocol.CommandLine.Run
import Std.Time

/-!
# The program

Gathers what a run looks at, runs, and puts the outcome into effect. The files
of a run are those that its arguments name, and the configuration.
-/

open FoldingProtocol CommandLine

/-- The names from the root down to where a path leads. -/
def placeOf (directory : List (List Char)) (path : String) : List (List Char) :=
  (FilePath.ofText path.toList).resolve directory

/-- Adds to a tree what a path leads to. -/
def gather (directory : List (List Char)) (tree : FileTree) (path : String) : IO FileTree := do
  let place := placeOf directory path
  let path := (← IO.currentDir) / path
  try
    if ← path.isDir then return { tree with directories := place :: tree.directories }
    return tree.put place (← IO.FS.readBinFile path).toList
  catch _ => return tree

/-- The text of what escaped. -/
def escapeText : Escape → String
  | .refused r => r.message
  | .noMembers => "not a table"
  | .notText => "not UTF-8"
  | .tornText => "half of a pair cannot be printed"
  | .badValue message => message
  | .isDirectory => "is a directory"
  | .notDirectory => "not a directory"
  | .fileExists => "file exists"

/-- The program. -/
def main (args : List String) : IO UInt32 := do
  let configHome := (← IO.getEnv "XDG_CONFIG_HOME").map String.toList
  let home := ((← IO.getEnv "HOME").getD "/").toList
  let some folder := Config.directory? configHome home
    | do IO.eprintln "no home directory"; return 1
  let directory := placeOf [] (← IO.currentDir).toString
  let configPath := Config.fileIn folder
  let paths := String.ofList configPath.text :: args
  let files ← paths.foldlM (gather directory) ⟨[], [directory]⟩
  let input ← if args.contains "-" then (← IO.getStdin).readBinToEnd else pure ⟨#[]⟩
  let clock := (← Std.Time.PlainDateTime.now).format "uuuu-MM-dd HH:mm:ss,SSS"
  let result := run ⟨directory, configPath, files, input.toList, clock⟩ args
  let place := configPath.resolve directory
  match result.files.get? place, files.get? place with
  | some contents, none =>
    IO.FS.createDirAll (String.ofList folder.text)
    IO.FS.writeBinFile (String.ofList configPath.text) ⟨contents.toArray⟩
  | _, _ => pure ()
  (← IO.getStdout).putStr result.output
  (← IO.getStderr).putStr result.errors
  match result.escaped with
  | some e => IO.eprintln (escapeText e)
  | none => pure ()
  return result.exitCode.toUInt32
