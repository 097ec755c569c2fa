import FoldingProtocol.Number.Binary64
import FoldingProtocol.Value.Moment

/-!
# Values

What travels in messages and stands in configuration files: scalars, arrays,
and objects whose members keep their order. Integers and doubles are different
values even where they are equal as numbers, since the two are written
differently; `same` is the coarser equality that compares them as numbers and
does not look at the order of members. A double that is not finite is a value too,
but not one that is sent: `dumped` has null in its place.
-/

namespace FoldingProtocol

/-- A value of a message or a configuration file. -/
inductive Value where
  | null
  | bool (b : Bool)
  | int (n : Int)
  | float (x : Binary64)
  | str (s : String)
  | moment (m : Moment)
  | arr (items : List Value)
  | obj (members : List (String × Value))
deriving Repr

instance : Inhabited Value := ⟨.null⟩

/-- The members of an object, in order. -/
abbrev Members := List (String × Value)

namespace Members

/-- The value of a member. -/
def get? (key : String) : Members → Option Value
  | [] => none
  | (k, v) :: rest => if k = key then some v else get? key rest

/-- Whether an object has a member. -/
def has (key : String) (ms : Members) : Bool := (ms.get? key).isSome

/-- Binds a member: a bound one gets its new value where it stands, a new one
comes last. -/
def put (key : String) (value : Value) : Members → Members
  | [] => [(key, value)]
  | (k, v) :: rest =>
    if k = key then (key, value) :: rest else (k, v) :: put key value rest

/-- Binds all members of a second object, in its order. -/
def putAll (ms : Members) (more : Members) : Members :=
  more.foldl (fun acc (k, v) => put k v acc) ms

/-- The members without the null ones. -/
def dropNulls (ms : Members) : Members :=
  ms.filter fun (_, v) => match v with
    | .null => false
    | _ => true

end Members

namespace Value

/-- A missing value as null. -/
def ofOption : Option Value → Value
  | none => .null
  | some v => v

/-- An absent text as null. -/
def ofText? (s : Option String) : Value := ofOption (s.map .str)

/-- A natural number. -/
def ofNat (n : Nat) : Value := .int n

/-- An absent count as null. -/
def ofNat? (n : Option Nat) : Value := ofOption (n.map ofNat)

/-- An absent truth value as null. -/
def ofBool? (b : Option Bool) : Value := ofOption (b.map .bool)

/-- Null. -/
def isNull : Value → Bool
  | .null => true
  | _ => false

/-- The name of a value's type in a message. -/
def typeName : Value → String
  | .null => "NoneType"
  | .bool _ => "bool"
  | .int _ => "int"
  | .float _ => "float"
  | .str _ => "str"
  | .moment m => m.typeName
  | .arr _ => "list"
  | .obj _ => "dict"

/-- A value counts as true unless it is null, false, zero or empty. -/
def isTruthy : Value → Bool
  | .null => false
  | .bool b => b
  | .int n => n != 0
  | .float x => x.rank != 0
  | .str s => s != ""
  | .moment _ => true
  | .arr items => !items.isEmpty
  | .obj members => !members.isEmpty

/-! ## Sameness -/

/-- Sameness of scalars: numbers are compared as numbers, and a truth value is
the number zero or one. -/
def sameScalar : Value → Value → Bool
  | .null, .null => true
  | .str s, .str t => s == t
  | .moment m, .moment n => m == n
  | .bool a, .bool b => a == b
  | .bool a, .int n => a.toInt == n
  | .int n, .bool a => n == a.toInt
  | .int m, .int n => m == n
  | .bool a, .float x => x.sameInt a.toInt
  | .float x, .bool a => x.sameInt a.toInt
  | .int n, .float x => x.sameInt n
  | .float x, .int n => x.sameInt n
  | .float x, .float y => x.same y
  | _, _ => false

mutual

/-- Sameness: scalars as numbers, arrays place by place, objects member by
member whatever the order. -/
def same : Value → Value → Bool
  | .arr xs, .arr ys => sameItems xs ys
  | .obj xs, .obj ys => xs.length == ys.length && sameMembers xs ys
  | .null, y => sameScalar .null y
  | .bool b, y => sameScalar (.bool b) y
  | .int n, y => sameScalar (.int n) y
  | .float x, y => sameScalar (.float x) y
  | .str s, y => sameScalar (.str s) y
  | .moment m, y => sameScalar (.moment m) y
  | .arr _, _ => false
  | .obj _, _ => false
termination_by structural x => x

/-- Arrays of one length whose items are the same. -/
def sameItems : List Value → List Value → Bool
  | [], [] => true
  | x :: xs, y :: ys => same x y && sameItems xs ys
  | _, _ => false
termination_by structural xs => xs

/-- Every member of the first object is bound to the same value in the
second. -/
def sameMembers : List (String × Value) → Members → Bool
  | [], _ => true
  | (k, x) :: xs, ys =>
    (match ys.get? k with
      | some y => same x y
      | none => false) && sameMembers xs ys
termination_by structural xs => xs

end

/-! ## Dumping -/

mutual

/-- A value as it is sent: null stands for a double that is not finite. -/
def dumped : Value → Value
  | .float x => if x.isFinite then .float x else .null
  | .arr items => .arr (dumpedItems items)
  | .obj members => .obj (dumpedMembers members)
  | .null => .null
  | .bool b => .bool b
  | .int n => .int n
  | .str s => .str s
  | .moment m => .moment m
termination_by structural v => v

/-- Items as they are sent. -/
def dumpedItems : List Value → List Value
  | [] => []
  | v :: rest => dumped v :: dumpedItems rest
termination_by structural vs => vs

/-- Members as they are sent. -/
def dumpedMembers : List (String × Value) → Members
  | [] => []
  | (k, v) :: rest => (k, dumped v) :: dumpedMembers rest
termination_by structural ms => ms

end

end Value

end FoldingProtocol
