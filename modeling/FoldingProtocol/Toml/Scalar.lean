import FoldingProtocol.Text.Character
import FoldingProtocol.Text.Hex
import FoldingProtocol.Toml.Fault
import FoldingProtocol.Value.Basic

/-!
# Scalars of configuration files

Texts in four forms, numbers, and moments. Every reader takes what is left of
the text and gives what it read and what is left after it. Numbers and moments
take as much as they can; whatever they leave is for the caller to judge.
-/

namespace FoldingProtocol.Toml

/-- A blank inside a line. -/
def isBlank (c : Char) : Bool := c = ' ' || c = '\t'

/-- A blank, or the end of a line. -/
def isGap (c : Char) : Bool := isBlank c || c = '\n'

/-- A control character, which no line may hold but for the tab. -/
def isControl (c : Char) : Bool := (c.toNat < 0x20 && c ≠ '\t') || c.toNat = 0x7f

/-- A control character that a text of several lines may not hold either. -/
def isControlBesideNewline (c : Char) : Bool := isControl c && c ≠ '\n'

/-! ## Literal texts -/

/-- Everything before a mark, and what is left from the mark on. -/
def before? (mark : List Char) : List Char → Option (List Char × List Char)
  | [] => if mark.isEmpty then some ([], []) else none
  | c :: rest =>
    if mark.isPrefixOf (c :: rest) then some ([], c :: rest)
    else (before? mark rest).map fun (body, r) => (c :: body, r)

/-- Everything up to a mark; nothing of a class may stand before the mark. -/
def literal (mark : List Char) (bad : Char → Bool) (missing : Problem) (cs : List Char) :
    Except Fault (List Char × List Char) :=
  match before? mark cs with
  | none => .error (.grammar missing [])
  | some (body, rest) =>
    match (cs.take body.length).find? bad with
    | some c =>
      .error (.grammar (.invalidChar c) (cs.dropWhile (!bad ·)))
    | none => .ok (body, rest.drop mark.length)

/-! ## Texts with escapes -/

/-- What a reader of a text with escapes is in the middle of: plain characters,
a backslash at the end of a line, the blanks that such a backslash joins, or an
escape by number. -/
inductive Mode where
  | plain
  | lineEnd
  | margin
  | number (start : List Char) (owed soFar : Nat)

/-- The character of a one-letter escape. -/
def escaped? : Char → Option Char
  | 'b' => some '\x08'
  | 't' => some '\t'
  | 'n' => some '\n'
  | 'f' => some '\x0c'
  | 'r' => some '\r'
  | 'e' => some '\x1b'
  | '"' => some '"'
  | '\\' => some '\\'
  | _ => none

/-- The digits of an escape by number. -/
def escapeWidth? : Char → Option Nat
  | 'x' => some 2
  | 'u' => some 4
  | 'U' => some 8
  | _ => none

/-- A text up to its closing quotes, one or three. -/
def escapedText (long : Bool) : Mode → List Char → Except Fault (List Char × List Char)
  | .number start _ _, [] => .error (.grammar .badHex start)
  | _, [] => .error (.grammar .openText [])
  | .number start owed soFar, c :: rest =>
    match Hex.value? c with
    | none => .error (.grammar .badHex start)
    | some digit =>
      let n := 16 * soFar + digit
      if 1 < owed then escapedText long (.number start (owed - 1) n) rest
      else if n.isValidChar then
        (escapedText long .plain rest).map fun (s, r) => (.ofNat n :: s, r)
      else .error (.grammar .notCharacter rest)
  | .lineEnd, c :: rest =>
    if isBlank c then escapedText long .lineEnd rest
    else if c = '\n' then escapedText long .margin rest
    else .error (.grammar .badEscape (c :: rest))
  | mode, c :: rest =>
    if (match mode with
      | .margin => isGap c
      | _ => false) then escapedText long .margin rest
    else if c = '"' then
      if !long then .ok ([], rest)
      else
        match rest with
        | '"' :: '"' :: after => .ok ([], after)
        | _ => (escapedText long .plain rest).map fun (s, r) => ('"' :: s, r)
    else if c = '\\' then
      match rest with
      | [] => .error (.grammar .badEscape [])
      | e :: after =>
        if long && isBlank e then escapedText long .lineEnd after
        else if long && e = '\n' then escapedText long .margin after
        else
          match escapeWidth? e, escaped? e with
          | some width, _ => escapedText long (.number after width 0) after
          | none, some x => (escapedText long .plain after).map fun (s, r) => (x :: s, r)
          | none, none => .error (.grammar .badEscape after)
    else if (if long then isControlBesideNewline c else isControl c) then
      .error (.grammar (.illegalChar c) (c :: rest))
    else (escapedText long .plain rest).map fun (s, r) => (c :: s, r)

/-! ## Texts -/

/-- Without a line end in front. -/
def withoutNewline : List Char → List Char
  | '\n' :: rest => rest
  | cs => cs

/-- Up to two quotes right after a long text belong to it. -/
def extraQuotes (quote : Char) (body rest : List Char) : List Char × List Char :=
  match rest with
  | a :: b :: after =>
    if a = quote then
      if b = quote then (body ++ [quote, quote], after) else (body ++ [quote], b :: after)
    else (body, rest)
  | [a] => if a = quote then (body ++ [quote], []) else (body, rest)
  | [] => (body, rest)

/-- A text on one line, from its opening quote on. -/
def shortText (cs : List Char) : Option (Except Fault (List Char × List Char)) :=
  match cs with
  | '"' :: rest => some (escapedText false .plain rest)
  | '\'' :: rest => some (literal ['\''] isControl .openLiteral rest)
  | _ => none

/-- A text, from its opening quotes on. -/
def text (cs : List Char) : Option (Except Fault (List Char × List Char)) :=
  match cs with
  | '"' :: '"' :: '"' :: rest =>
    some ((escapedText true .plain (withoutNewline rest)).map fun (s, r) =>
      extraQuotes '"' s r)
  | '\'' :: '\'' :: '\'' :: rest =>
    some ((literal ['\'', '\'', '\''] isControlBesideNewline .openLongLiteral
      (withoutNewline rest)).map fun (s, r) => extraQuotes '\'' s r)
  | _ => shortText cs

/-! ## Moments -/

/-- A number of exactly `count` digits. -/
def digits? : (count : Nat) → (soFar : Nat) → List Char → Option (Nat × List Char)
  | 0, soFar, cs => some (soFar, cs)
  | count + 1, soFar, c :: rest => do
    digits? count (10 * soFar + (← Text.asciiDigit? c)) rest
  | _ + 1, _, [] => none

/-- A number of two digits within bounds. -/
def pair? (low high : Nat) (cs : List Char) : Option (Nat × List Char) :=
  match digits? 2 0 cs with
  | some (n, rest) => if low ≤ n ∧ n ≤ high then some (n, rest) else none
  | none => none

/-- A number of two digits within bounds, behind a mark. -/
def markedPair? (mark : Char) (low high : Nat) : List Char → Option (Nat × List Char)
  | c :: rest => if c = mark then pair? low high rest else none
  | [] => none

/-- A date; the day need not be one that its month has. -/
def date? (cs : List Char) : Option (Date × List Char) := do
  let (year, rest) ← digits? 4 0 cs
  let (month, rest) ← markedPair? '-' 1 12 rest
  let (day, rest) ← markedPair? '-' 1 31 rest
  some (⟨year, month, day⟩, rest)

/-- A fraction of a second in millionths; further digits are dropped. -/
def fraction (cs : List Char) : Nat × List Char :=
  match cs with
  | '.' :: rest =>
    let (ds, after) := rest.span fun c => (Text.asciiDigit? c).isSome
    if ds.isEmpty then (0, cs)
    else
      let six := (ds ++ List.replicate 6 '0').take 6
      (six.foldl (fun n c => 10 * n + (Text.asciiDigit? c).getD 0) 0, after)
  | _ => (0, cs)

/-- A time of day; the seconds may be left out. -/
def time? (cs : List Char) : Option (TimeOfDay × List Char) := do
  let (hour, rest) ← pair? 0 23 cs
  let (minute, rest) ← markedPair? ':' 0 59 rest
  match markedPair? ':' 0 59 rest with
  | none => some (⟨hour, minute, 0, 0⟩, rest)
  | some (second, rest) =>
    let (microsecond, rest) := fraction rest
    some (⟨hour, minute, second, microsecond⟩, rest)

/-- An offset in minutes; without one nothing is taken. -/
def offset (cs : List Char) : Option Int × List Char :=
  match cs with
  | c :: rest =>
    if c = 'Z' ∨ c = 'z' then (some 0, rest)
    else if c = '+' ∨ c = '-' then
      match (do
        let (hours, rest) ← pair? 0 23 rest
        let (minutes, rest) ← markedPair? ':' 0 59 rest
        some (60 * hours + minutes, rest)) with
      | some (minutes, after) =>
        (some (if c = '-' then -(minutes : Int) else (minutes : Int)), after)
      | none => (none, cs)
    else (none, cs)
  | [] => (none, cs)

/-- A date, with the time that may follow it, or a time. -/
def moment? (cs : List Char) : Option (Except Fault (Moment × List Char)) :=
  match date? cs with
  | some (day, rest) =>
    let (moment, rest) : Moment × List Char := match rest with
      | c :: more =>
        if c = 'T' ∨ c = 't' ∨ c = ' ' then
          match time? more with
          | some (clock, after) =>
            let (east, after) := offset after
            (.dateTime day clock east, after)
          | none => (.date day, rest)
        else (.date day, rest)
      | [] => (.date day, rest)
    if day.isValid then some (.ok (moment, rest)) else some (.error (.grammar .badMoment cs))
  | none => (time? cs).map fun (clock, rest) => .ok (.time clock, rest)

/-! ## Numbers -/

/-- Goes on with digits of a class, single underscores between them dropped. -/
def moreDigits (isDigit : Char → Bool) : List Char → List Char × List Char
  | '_' :: c :: rest =>
    if isDigit c then
      let (ds, after) := moreDigits isDigit rest
      (c :: ds, after)
    else ([], '_' :: c :: rest)
  | c :: rest =>
    if isDigit c then
      let (ds, after) := moreDigits isDigit rest
      (c :: ds, after)
    else ([], c :: rest)
  | [] => ([], [])

/-- Digits of a class, one at least. -/
def someDigits? (isDigit : Char → Bool) : List Char → Option (List Char × List Char)
  | c :: rest =>
    if isDigit c then
      let (ds, after) := moreDigits isDigit rest
      some (c :: ds, after)
    else none
  | [] => none

/-- A digit of base ten. -/
def isDecimal (c : Char) : Bool := (Text.asciiDigit? c).isSome

/-- The number that digits spell in a base. -/
def ofDigits (base : Nat) (ds : List Char) : Nat :=
  ds.foldl (fun n c => base * n + (Hex.value? c).getD 0) 0

/-- An integer in base sixteen, eight or two, after its mark. -/
def radixInteger? : List Char → Option (Int × List Char)
  | '0' :: 'x' :: rest =>
    (someDigits? (fun c => (Hex.value? c).isSome) rest).map fun (ds, r) =>
      ((ofDigits 16 ds : Nat), r)
  | '0' :: 'o' :: rest =>
    (someDigits? (fun c => '0' ≤ c && c ≤ '7') rest).map fun (ds, r) => ((ofDigits 8 ds : Nat), r)
  | '0' :: 'b' :: rest =>
    (someDigits? (fun c => c = '0' || c = '1') rest).map fun (ds, r) => ((ofDigits 2 ds : Nat), r)
  | _ => none

/-- The digits before the point: a zero alone, or digits from another one on. -/
def whole? : List Char → Option (List Char × List Char)
  | '0' :: rest => some (['0'], rest)
  | cs => someDigits? isDecimal cs

/-- The digits after a point; without any the point is not taken. -/
def places (cs : List Char) : List Char × List Char :=
  match cs with
  | '.' :: rest => (someDigits? isDecimal rest).getD ([], cs)
  | _ => ([], cs)

/-- An exponent; without digits nothing is taken. -/
def power (cs : List Char) : Option Int × List Char :=
  match cs with
  | c :: rest =>
    if c = 'e' ∨ c = 'E' then
      let (sign, ds) : Int × List Char := match rest with
        | '-' :: more => (-1, more)
        | '+' :: more => (1, more)
        | more => (1, more)
      match someDigits? isDecimal ds with
      | some (ds, after) => (some (sign * ofDigits 10 ds), after)
      | none => (none, cs)
    else (none, cs)
  | [] => (none, cs)

/-- A sign, and what is left after it. -/
def sign : List Char → Bool × List Char
  | '-' :: rest => (true, rest)
  | '+' :: rest => (false, rest)
  | cs => (false, cs)

/-- A number in base ten, which is an integer unless it has places or a power. -/
def decimal? (cs : List Char) : Option (Except Fault (Value × List Char)) :=
  let (negative, body) := sign cs
  match whole? body with
  | none => none
  | some (whole, rest) =>
    let (places, rest) := places rest
    let (power?, rest) := power rest
    if places.isEmpty && power?.isNone then
      if Numeral.digitLimit < whole.length then some (.error (.digits whole.length))
      else
        let n : Int := ofDigits 10 whole
        some (.ok (.int (if negative then -n else n), rest))
    else
      let d : Decimal := ⟨ofDigits 10 (whole ++ places), power?.getD 0 - places.length⟩
      some (.ok (.float (.ofDecimal negative d), rest))

/-- A number that is not finite. -/
def unbounded? (cs : List Char) : Option (Value × List Char) :=
  let (negative, body) := sign cs
  match body with
  | 'i' :: 'n' :: 'f' :: rest => some (.float (.infinity negative), rest)
  | 'n' :: 'a' :: 'n' :: rest => some (.float .nan, rest)
  | _ => none

/-- A number. -/
def number? (cs : List Char) : Option (Except Fault (Value × List Char)) :=
  match radixInteger? cs with
  | some (n, rest) => some (.ok (.int n, rest))
  | none =>
    match decimal? cs with
    | some found => some found
    | none => (unbounded? cs).map .ok

/-- A truth value. -/
def flag? : List Char → Option (Value × List Char)
  | 't' :: 'r' :: 'u' :: 'e' :: rest => some (.bool true, rest)
  | 'f' :: 'a' :: 'l' :: 's' :: 'e' :: rest => some (.bool false, rest)
  | _ => none

/-- A value without parts. -/
def scalar (cs : List Char) : Except Fault (Value × List Char) :=
  match text cs, flag? cs, moment? cs, number? cs with
  | some found, _, _, _ => found.map fun (s, r) => (.str (.ofList s), r)
  | none, some found, _, _ => .ok found
  | none, none, some found, _ => found.map fun (m, r) => (.moment m, r)
  | none, none, none, some found => found
  | none, none, none, none => .error (.grammar .badValue cs)

end FoldingProtocol.Toml
