import FoldingProtocol.Text.Character
import FoldingProtocol.Text.Hex
import FoldingProtocol.Text.Split

/-!
# Hosts in brackets

What stands between brackets in an authority has to be an address of version 6,
possibly with a zone after a percent sign, or an address of a future version,
which a leading `v` announces.
-/

namespace FoldingProtocol.Host

/-- A number from 0 to 255, in digits alone and without zeros before it. -/
def isOctet (cs : List Char) : Bool :=
  match cs with
  | [] => false
  | ['0'] => true
  | '0' :: _ => false
  | _ => cs.length ≤ 3 && match cs.mapM Text.asciiDigit? with
    | some digits => digits.foldl (fun n digit => 10 * n + digit) 0 ≤ 255
    | none => false

/-- An address of version 4: four octets. -/
def isVersion4 (cs : List Char) : Bool :=
  let parts := Text.splitAt '.' cs
  parts.length == 4 && parts.all isOctet

/-- Sixteen bits in at most four hexadecimal digits. -/
def isGroup (cs : List Char) : Bool :=
  !cs.isEmpty && cs.length ≤ 4 && cs.all fun c => (Hex.value? c).isSome

/-- The groups of an address, its last part spelled as version 4 counting as
two; `none` if that part is not such an address. -/
def groups? (cs : List Char) : Option (List (List Char)) :=
  let parts := Text.splitAt ':' cs
  match parts.getLast? with
  | some last =>
    if last.contains '.' then
      if isVersion4 last then some (parts.dropLast ++ [['0'], ['0']]) else none
    else some parts
  | none => none

/-- The groups on one side of the place where groups are left out. An empty
group alone belongs to that place. -/
def side (groups : List (List Char)) : List (List Char) :=
  if groups = [[]] then [] else groups

/-- Eight groups, or fewer around one place where groups are left out. -/
def isVersion6Address (cs : List Char) : Bool :=
  if (Text.splitAt ':' cs).length < 3 then false
  else
    match groups? cs with
    | none => false
    | some groups =>
      match (groups.drop 1).dropLast.span (!·.isEmpty) with
      | (_, []) => groups.length == 8 && groups.all isGroup
      | (inner, _ :: _) =>
        let before := side (groups.take (inner.length + 1))
        let after := side (groups.drop (inner.length + 2))
        groups.length ≤ 9 && before.all isGroup && after.all isGroup &&
          before.length + after.length < 8

/-- An address of version 6, with a zone or not. -/
def isVersion6 (cs : List Char) : Bool :=
  if cs.contains '/' then false
  else
    match cs.span (· ≠ '%') with
    | (address, []) => isVersion6Address address
    | (address, _ :: zone) =>
      !zone.isEmpty && !zone.contains '%' && isVersion6Address address

/-- An address of a future version: `v`, hexadecimal digits, a point, and
something. -/
def isFuture (cs : List Char) : Bool :=
  match cs with
  | 'v' :: rest =>
    match rest.span fun c => (Hex.value? c).isSome with
    | (_ :: _, '.' :: _ :: _) => true
    | _ => false
  | _ => false

end FoldingProtocol.Host
