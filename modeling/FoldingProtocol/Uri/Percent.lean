import FoldingProtocol.Text.Hex
import FoldingProtocol.Text.Utf8

/-!
# Percent escapes

A URI is ASCII. Every other character, and those that have a meaning in a URI,
stand in it as the percent escapes of their UTF-8 bytes. Reading back is
lenient: a percent sign that starts no escape is kept, bytes that are not UTF-8
are replaced, and a character that is not ASCII stands for itself and ends the
bytes before it.
-/

namespace FoldingProtocol.Percent

/-- The characters of an escaped path that stand for themselves: letters,
digits, a few marks, the slash and the colon. -/
def isPlain (c : Char) : Bool :=
  ('a' ≤ c && c ≤ 'z') || ('A' ≤ c && c ≤ 'Z') || ('0' ≤ c && c ≤ '9') ||
    c == '_' || c == '.' || c == '-' || c == '~' || c == '/' || c == ':'

/-- A byte as an escape. -/
def escapeByte (b : UInt8) : List Char := '%' :: Hex.fixed Hex.upper 2 b.toNat

/-- A text with escapes for all but the plain characters. -/
def escape (cs : List Char) : List Char :=
  cs.flatMap fun c => if isPlain c then [c] else (Utf8.encodeChar c).flatMap escapeByte

/-- The bytes that ASCII characters stand for. -/
def bytes : List Char → Utf8.Bytes
  | '%' :: a :: b :: rest =>
    match Hex.value? a, Hex.value? b with
    | some high, some low => .ofNat (16 * high + low) :: bytes rest
    | _, _ => 0x25 :: bytes (a :: b :: rest)
  | c :: rest => .ofNat c.toNat :: bytes rest
  | [] => []

/-- Reads on after a run of ASCII characters, which is held backwards. -/
def unescapeFrom (run : List Char) : List Char → List Char
  | [] => Utf8.decodeLossy (bytes run.reverse)
  | c :: rest =>
    if c.toNat < 0x80 then unescapeFrom (c :: run) rest
    else Utf8.decodeLossy (bytes run.reverse) ++ c :: unescapeFrom [] rest

/-- The text that stands behind the escapes. -/
def unescape (cs : List Char) : List Char := unescapeFrom [] cs

end FoldingProtocol.Percent
