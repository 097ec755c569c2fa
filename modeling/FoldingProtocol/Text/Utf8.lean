/-!
# UTF-8

A character is one to four bytes. Decoding goes byte by byte through a small
machine: a lead byte says how many bytes are owed and between which bounds the
next one lies, so overlong forms, surrogates and numbers past the last code
point are refused at the first byte that rules them out. What is refused is one
broken part; the byte that broke it starts the next part.
-/

namespace FoldingProtocol.Utf8

/-- Raw contents of a file. -/
abbrev Bytes := List UInt8

/-- The bytes of a character. -/
def encodeChar (c : Char) : Bytes :=
  let n := c.toNat
  let tail (k : Nat) : UInt8 := .ofNat (0x80 + k % 64)
  if n < 0x80 then [.ofNat n]
  else if n < 0x800 then [.ofNat (0xc0 + n / 64), tail n]
  else if n < 0x10000 then [.ofNat (0xe0 + n / 4096), tail (n / 64), tail n]
  else [.ofNat (0xf0 + n / 262144), tail (n / 4096), tail (n / 64), tail n]

/-- The bytes of a text. -/
def encode (cs : List Char) : Bytes := cs.flatMap encodeChar

/-- Where the machine stands: between characters, or inside one, with the
number read so far, the bytes owed, and the bounds of the next byte. -/
inductive State where
  | start
  | within (soFar owed low high : Nat)

/-- What a byte means between characters: a whole character, the start of one,
or nothing. -/
def startWith (b : Nat) : List (Option Char) × State :=
  if b < 0x80 then ([some (.ofNat b)], .start)
  else if b < 0xc2 then ([none], .start)
  else if b < 0xe0 then ([], .within (b - 0xc0) 1 0x80 0xbf)
  else if b = 0xe0 then ([], .within 0 2 0xa0 0xbf)
  else if b = 0xed then ([], .within 0xd 2 0x80 0x9f)
  else if b < 0xf0 then ([], .within (b - 0xe0) 2 0x80 0xbf)
  else if b = 0xf0 then ([], .within 0 3 0x90 0xbf)
  else if b < 0xf4 then ([], .within (b - 0xf0) 3 0x80 0xbf)
  else if b = 0xf4 then ([], .within 4 3 0x80 0x8f)
  else ([none], .start)

/-- One step: the parts that the byte completes, and the state after it. -/
def step : State → Nat → List (Option Char) × State
  | .start, b => startWith b
  | .within soFar owed low high, b =>
    if low ≤ b ∧ b ≤ high then
      let n := soFar * 64 + (b - 0x80)
      if owed ≤ 1 then ([some (.ofNat n)], .start)
      else ([], .within n (owed - 1) 0x80 0xbf)
    else
      let (parts, state) := startWith b
      (none :: parts, state)

/-- The parts of some bytes: characters, and `none` for each broken part. -/
def parts : State → Bytes → List (Option Char)
  | .start, [] => []
  | .within .., [] => [none]
  | state, b :: rest =>
    let (done, next) := step state b.toNat
    done ++ parts next rest

/-- The text of some bytes, if nothing in them is broken. -/
def decode? (bytes : Bytes) : Option (List Char) := (parts .start bytes).mapM id

/-- The text of some bytes, with a replacement character for each broken
part. -/
def decodeLossy (bytes : Bytes) : List Char :=
  (parts .start bytes).map (·.getD '\uFFFD')

end FoldingProtocol.Utf8
