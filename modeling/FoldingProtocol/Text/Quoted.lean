import FoldingProtocol.Text.Hex
import FoldingProtocol.Text.Printable
import FoldingProtocol.Text.Storage

/-!
# Quoted text

A text inside a message stands between quotes, so that its ends are seen. The
single quote is used, unless the text holds single quotes and no double one.
Backslash, the quote in use, and what is not printable are escaped, the latter
with the shortest of three fixed widths. Half a pair is escaped like a character of
its code.
-/

namespace FoldingProtocol.Text

/-- One character of a quoted text. -/
def quotedChar (quote c : Char) : List Char :=
  if c = quote ∨ c = '\\' then ['\\', c]
  else if c = '\n' then ['\\', 'n']
  else if c = '\r' then ['\\', 'r']
  else if c = '\t' then ['\\', 't']
  else if isPrintable c then [c]
  else if c.toNat < 0x100 then '\\' :: 'x' :: Hex.fixed Hex.lower 2 c.toNat
  else if c.toNat < 0x10000 then '\\' :: 'u' :: Hex.fixed Hex.lower 4 c.toNat
  else '\\' :: 'U' :: Hex.fixed Hex.lower 8 c.toNat

/-- The quote for a text. -/
def quoteFor (cs : List Char) : Char :=
  if cs.contains '\'' && !cs.contains '"' then '"' else '\''

/-- One point of a quoted text. -/
def quotedPoint (quote : Char) : Point → List Char
  | .char c => quotedChar quote c
  | .half n => halfEscape n

/-- A stored text between quotes. -/
def quotedIn (storage : Storage) (cs : List Char) : List Char :=
  let quote := quoteFor cs
  quote :: (storage.points cs).flatMap (quotedPoint quote) ++ [quote]

/-- A text between quotes. -/
def quoted (cs : List Char) : List Char := quotedIn .plain cs

end FoldingProtocol.Text
