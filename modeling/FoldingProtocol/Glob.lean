/-!
# Glob patterns

A star stands for any run of characters, slashes and line ends included, a
question mark for one character, and brackets for one character of a set. A set
that is never closed is just a bracket.

A set is written as characters and ranges, and reading it has its own rules
about hyphens. The text is cut at some of its hyphens: at the first one that
has a character before it, then at each that comes two characters or more after
the last cut. At each cut the characters on both sides make a range. A range
that is empty goes away with both of its ends, and only then does an exclamation
mark in front negate the set.
-/

namespace FoldingProtocol.Glob

/-- The characters between two, both included. -/
structure CharRange where
  low : Char
  high : Char
deriving DecidableEq, Repr

/-- A part of a pattern. -/
inductive Part where
  | run
  | one
  | exactly (c : Char)
  | oneOf (negated : Bool) (ranges : List CharRange)
deriving DecidableEq, Repr

/-! ## Sets -/

/-- Cuts a text at hyphens. The first `guarded` characters are not looked at;
the piece being read is held backwards. -/
def cut (piece : List Char) : (guarded : Nat) → List Char → List (List Char)
  | _, [] => [piece.reverse]
  | guarded + 1, c :: rest => cut (c :: piece) guarded rest
  | 0, c :: rest =>
    if c = '-' then piece.reverse :: cut [] 2 rest else cut (c :: piece) 0 rest

/-- A hyphen at the end of a set makes no range and is a character of the last
piece. -/
def closeLast : List (List Char) → List (List Char)
  | [piece, []] => [piece ++ ['-']]
  | piece :: rest => piece :: closeLast rest
  | [] => []

/-- Joins pieces from the right where the range between them is empty: both of
its ends go away. -/
def dropEmpty : List (List Char) → List (List Char)
  | [] => []
  | piece :: rest =>
    match dropEmpty rest with
    | [] => [piece]
    | next :: more =>
      match piece.getLast?, next with
      | some low, high :: tail =>
        if high < low then (piece.dropLast ++ tail) :: more else piece :: next :: more
      | _, _ => piece :: next :: more

/-- A character as a range. -/
def CharRange.single (c : Char) : CharRange := ⟨c, c⟩

/-- The ranges of pieces that each come after a hyphen. The character before
the hyphen waits as the low end; without one the hyphen is a character. -/
def rangesAfter : (low? : Option Char) → List (List Char) → List CharRange
  | low?, [] => low?.toList.map .single
  | some low, (high :: tail) :: rest =>
    ⟨low, high⟩ :: tail.dropLast.map .single ++ rangesAfter tail.getLast? rest
  | low?, piece :: rest =>
    low?.toList.map .single ++ .single '-' :: piece.dropLast.map .single ++
      rangesAfter piece.getLast? rest

/-- The ranges of pieces: the ends of two neighbours make one, and every other
character is one by itself. -/
def rangesOf : List (List Char) → List CharRange
  | [] => []
  | piece :: rest => piece.dropLast.map .single ++ rangesAfter piece.getLast? rest

/-- The set between two brackets. -/
def setOf (body : List Char) : Part :=
  let guarded := if ['!'].isPrefixOf body then 2 else 1
  let pieces :=
    if body.contains '-' then dropEmpty (closeLast (cut [] guarded body)) else [body]
  match pieces with
  | ('!' :: piece) :: rest => .oneOf true (rangesOf (piece :: rest))
  | pieces => .oneOf false (rangesOf pieces)

/-- Where a set may close: a closing bracket that comes first, after a negation
or not, is a character of the set. -/
def setBody : List Char → List Char × List Char
  | '!' :: ']' :: rest => let (body, after) := rest.span (· ≠ ']'); ('!' :: ']' :: body, after)
  | '!' :: rest => let (body, after) := rest.span (· ≠ ']'); ('!' :: body, after)
  | ']' :: rest => let (body, after) := rest.span (· ≠ ']'); (']' :: body, after)
  | rest => rest.span (· ≠ ']')

/-! ## Patterns -/

/-- The parts of a pattern; the fuel is its length. -/
def partsFrom : (fuel : Nat) → List Char → List Part
  | 0, _ => []
  | _, [] => []
  | fuel + 1, c :: rest =>
    if c = '*' then .run :: partsFrom fuel rest
    else if c = '?' then .one :: partsFrom fuel rest
    else if c = '[' then
      match setBody rest with
      | (body, _ :: after) => setOf body :: partsFrom fuel after
      | (_, []) => .exactly '[' :: partsFrom fuel rest
    else .exactly c :: partsFrom fuel rest

/-- The parts of a pattern. -/
def parse (pattern : List Char) : List Part := partsFrom pattern.length pattern

/-- Whether a part other than a run stands for a character. -/
def Part.accepts (c : Char) : Part → Bool
  | .run => true
  | .one => true
  | .exactly d => c = d
  | .oneOf negated ranges => (ranges.any fun r => r.low ≤ c && c ≤ r.high) != negated

/-! ## Comparing

A pattern is compared with a text and with all rests of that text at once, from
the last part of the pattern to the first. The work is the product of the two
lengths, however many stars there are. -/

/-- For each place, whether there is a yes there or later. -/
def yesFromHere : List Bool → List Bool
  | [] => []
  | b :: rest =>
    let later := yesFromHere rest
    (b || later.headD false) :: later

/-- For a text and each rest of it, the longest first and the empty one last,
whether the parts stand for it. -/
def verdicts : List Part → List Char → List Bool
  | [], cs => cs.map (fun _ => false) ++ [true]
  | .run :: parts, cs => yesFromHere (verdicts parts cs)
  | part :: parts, cs =>
    cs.zipWith (fun c later => part.accepts c && later) (verdicts parts cs).tail ++ [false]

/-- Whether the parts stand for a whole text. -/
def accepts (parts : List Part) (cs : List Char) : Bool := (verdicts parts cs).headD false

/-- Whether a pattern stands for a whole text. -/
def fits (pattern text : List Char) : Bool := accepts (parse pattern) text

end FoldingProtocol.Glob
