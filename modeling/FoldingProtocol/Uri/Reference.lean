import FoldingProtocol.Text.Quoted
import FoldingProtocol.Uri.Host

/-!
# Splitting a reference

A URI or a part of one: scheme, authority, path, and what follows the path. Of
these the library looks at scheme and path. Splitting never rejects a path; it
rejects an authority whose brackets do not hold an address, and one that would
turn into something else when its characters are normalised.
-/

namespace FoldingProtocol.Uri

/-- Scheme and path of a reference; the scheme may be empty. -/
structure Reference where
  scheme : List Char
  path : List Char
deriving DecidableEq, Repr

/-- Why a reference cannot be split. -/
inductive Fault where
  | unbalanced
  | badFuture
  | version4
  | noAddress (host : List Char)
  | confusable (authority : List Char)
deriving DecidableEq, Repr

/-- What is said about it. -/
def Fault.message : Fault → String
  | .unbalanced => "Invalid IPv6 URL"
  | .badFuture => "IPvFuture address is invalid"
  | .version4 => "An IPv4 address cannot be in brackets"
  | .noAddress host =>
    .ofList (Text.quoted host) ++ " does not appear to be an IPv4 or IPv6 address"
  | .confusable authority =>
    "netloc '" ++ .ofList authority ++ "' contains invalid characters under NFKC normalization"

/-- A letter of ASCII. -/
def isLetter (c : Char) : Bool := ('a' ≤ c && c ≤ 'z') || ('A' ≤ c && c ≤ 'Z')

/-- A character that a scheme may have after its first letter. -/
def isSchemeChar (c : Char) : Bool :=
  isLetter c || ('0' ≤ c && c ≤ '9') || c == '+' || c == '-' || c == '.'

/-- The scheme and what follows its colon; without a scheme all is left. -/
def splitScheme (cs : List Char) : List Char × List Char :=
  match cs.span (· ≠ ':') with
  | (first :: more, _ :: rest) =>
    if isLetter first && more.all isSchemeChar then
      ((first :: more).map Text.lowerAscii, rest)
    else ([], cs)
  | _ => ([], cs)

/-- Characters that end an authority. -/
def endsAuthority (c : Char) : Bool := c == '/' || c == '?' || c == '#'

/-- The authority after two slashes, and what follows it. -/
def splitAuthority : List Char → List Char × List Char
  | '/' :: '/' :: rest => rest.span (!endsAuthority ·)
  | cs => ([], cs)

/-- Characters whose compatibility form holds a slash, a question mark, a
number sign, an at sign or a colon. -/
def confusables : List Nat := [
  0x2047, 0x2048, 0x2049, 0x2100, 0x2101, 0x2105, 0x2106, 0x2a74, 0xfe13, 0xfe16,
  0xfe55, 0xfe56, 0xfe5f, 0xfe6b, 0xff03, 0xff0f, 0xff1a, 0xff1f, 0xff20]

/-- Whether a host may stand in brackets. -/
def checkHost (host : List Char) : Except Fault Unit :=
  if ['v'].isPrefixOf host then
    if Host.isFuture host then .ok () else .error .badFuture
  else if Host.isVersion4 host then .error .version4
  else if Host.isVersion6 host then .ok ()
  else .error (.noAddress host)

/-- What follows the last at sign of an authority: a host, and possibly a port. -/
def hostAndPort (authority : List Char) : List Char :=
  (authority.reverse.takeWhile (· ≠ '@')).reverse

/-- The host in an authority that has brackets. They may stand around the host
only, with nothing before them and at most a port after them; if they stand
elsewhere, the host ends where a port starts. -/
def host (authority : List Char) : Except Fault (List Char) :=
  match (hostAndPort authority).span (· ≠ '[') with
  | (host, []) => .ok (host.takeWhile (· ≠ ':'))
  | (_ :: _, _ :: _) => .error .unbalanced
  | ([], _ :: bracketed) =>
    match (bracketed.dropWhile (· ≠ ']')).drop 1 with
    | [] | ':' :: _ => .ok (bracketed.takeWhile (· ≠ ']'))
    | _ => .error .unbalanced

/-- Whether an authority may stand in a reference. -/
def checkAuthority (authority : List Char) : Except Fault Unit := do
  let opens := authority.contains '['
  if opens ≠ authority.contains ']' then .error .unbalanced
  if opens then checkHost (← host authority)
  if authority.any fun c => confusables.contains c.toNat then
    .error (.confusable authority)

/-- Splits a reference. Controls and blanks before it are dropped, and so are
tabs and line ends anywhere in it. -/
def Reference.ofText (cs : List Char) : Except Fault Reference := do
  let cs := (cs.dropWhile fun c => decide (c.toNat ≤ 0x20)).filter fun c =>
    c ≠ '\t' && c ≠ '\r' && c ≠ '\n'
  let (scheme, rest) := splitScheme cs
  let (authority, rest) := splitAuthority rest
  checkAuthority authority
  .ok ⟨scheme, (rest.takeWhile (· ≠ '#')).takeWhile (· ≠ '?')⟩

/-- Schemes whose last path segment may carry parameters; the empty one is that
of a relative reference. -/
def parameterSchemes : List String := [
  "", "ftp", "hdl", "prospero", "http", "imap", "https", "shttp", "rtsp", "rtsps",
  "rtspu", "sip", "sips", "mms", "sftp", "tel"]

/-- The path without the parameters of its last segment. -/
def Reference.plainPath (r : Reference) : List Char :=
  if parameterSchemes.contains (.ofList r.scheme) then
    let last := (r.path.reverse.takeWhile (· ≠ '/')).reverse
    let before := r.path.take (r.path.length - last.length)
    before ++ last.takeWhile (· ≠ ';')
  else r.path

end FoldingProtocol.Uri
