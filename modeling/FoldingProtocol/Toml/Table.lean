import FoldingProtocol.Toml.Fault
import FoldingProtocol.Value.Basic

/-!
# Tables under construction

A document is built up statement by statement. Statements reach tables by their
paths; a table on the way that is not there yet is made. The last table of an
array of tables stands for the array, except inside an inline table.

What later statements may still do to a table is kept beside the tables, as
marks on paths: a fixed path, and every path below it, can no longer be changed,
and a declared one can no longer be declared.
-/

namespace FoldingProtocol.Toml

/-- Why a table was not changed: something on the way is no table, or the key
is taken. -/
inductive Conflict where
  | noTable
  | keyTaken
deriving DecidableEq, Repr

/-- Changes the table at a path. -/
def change (throughArrays : Bool) (act : Members → Except Conflict Members) :
    Path → Members → Except Conflict Members
  | [], ms => act ms
  | key :: path, ms =>
    match ms.get? key with
    | none => do .ok (ms.put key (.obj (← change throughArrays act path [])))
    | some (.obj table) => do .ok (ms.put key (.obj (← change throughArrays act path table)))
    | some (.arr items) =>
      match throughArrays, items.getLast? with
      | true, some (.obj table) => do
        let table ← change throughArrays act path table
        .ok (ms.put key (.arr (items.dropLast ++ [.obj table])))
      | _, _ => .error .noTable
    | some _ => .error .noTable

/-- Binds a key that is not bound yet. -/
def bindNew (key : String) (v : Value) (ms : Members) : Except Conflict Members :=
  if ms.has key then .error .keyTaken else .ok (ms.put key v)

/-- Adds an empty table to an array of tables. -/
def addTable (key : String) (ms : Members) : Except Conflict Members :=
  match ms.get? key with
  | none => .ok (ms.put key (.arr [.obj []]))
  | some (.arr items) => .ok (ms.put key (.arr (items ++ [.obj []])))
  | some _ => .error .noTable

/-- Marks on paths. -/
structure Marks where
  declared : List Path
  fixed : List Path

namespace Marks

/-- No marks. -/
def none : Marks := ⟨[], []⟩

/-- Whether a path was declared. -/
def isDeclared (m : Marks) (path : Path) : Bool := m.declared.contains path

/-- Whether a path is fixed, or lies below a fixed one. -/
def isFixed (m : Marks) (path : Path) : Bool := m.fixed.any (·.isPrefixOf path)

/-- Declares a path. -/
def declare (m : Marks) (path : Path) : Marks := { m with declared := path :: m.declared }

/-- Fixes a path. -/
def fix (m : Marks) (path : Path) : Marks := { m with fixed := path :: m.fixed }

/-- Takes the marks off a path and off everything below it. -/
def release (m : Marks) (path : Path) : Marks where
  declared := m.declared.filter (!path.isPrefixOf ·)
  fixed := m.fixed.filter (!path.isPrefixOf ·)

end Marks

end FoldingProtocol.Toml
