import ProxyRouting.Text.Blank

/-!
The parts of a URL with an authority, and the request made of them. A URL is its scheme, `://`, what
precedes the host, the host, what follows it up to the path, and the rest; the parts joined are the
URL again, so offsets are lengths of what precedes. A request has scheme and host in lower case and a
path that begins with a slash.
-/
namespace ProxyRouting

/-- What conditions look at: the URL, its host without port and brackets, its scheme. -/
structure Request where
  url : Text
  host : Text
  scheme : Text
  deriving DecidableEq, Repr

namespace Url

/-- The scheme and the text behind `://`, the scheme not being empty. -/
def scheme? (url : Text) : Option (Text × Text) :=
  match Text.cut? [':'] url with
  | some ([], _) => none
  | some (scheme, '/' :: '/' :: rest) => some (scheme, rest)
  | _ => none

/-- The character ends an authority. -/
def endsAuthority (c : Char) : Bool := c == '/' || c == '?' || c == '#'

/-- A URL cut into its scheme, its authority and the rest. -/
structure Split where
  scheme : Text
  authority : Text
  rest : Text
  deriving DecidableEq, Repr

/-- Cuts a URL at its scheme and at the end of its authority. -/
def split? (url : Text) : Option Split :=
  (scheme? url).map fun (scheme, behind) =>
    ⟨scheme, behind.takeWhile (!endsAuthority ·), behind.dropWhile (!endsAuthority ·)⟩

/-- An authority cut around its host, whose brackets are left outside. -/
structure Authority where
  before : Text
  host : Text
  after : Text
  deriving DecidableEq, Repr

/-- The user information with its `@`, and the text behind it. -/
def splitUser (authority : Text) : Text × Text :=
  match Text.cutLast? '@' authority with
  | some (user, rest) => (user ++ ['@'], rest)
  | none => ([], authority)

/-- Cuts an authority around its host: behind the last `@`, and up to the bracket that closes it or
    to the first colon. An opened bracket must be closed. -/
def Authority.of? (authority : Text) : Option Authority :=
  match splitUser authority with
  | (user, '[' :: rest) => (Text.cut? [']'] rest).map fun (host, after) => ⟨user ++ ['['], host, ']' :: after⟩
  | (user, rest) => some ⟨user, rest.takeWhile (· ≠ ':'), rest.dropWhile (· ≠ ':')⟩

/-- The host of a URL as written. -/
def host? (url : Text) : Option Text := (split? url).bind fun s => (Authority.of? s.authority).map (·.host)

/-- The offset behind `://`. -/
def schemeEnd? (url : Text) : Option Nat := (scheme? url).map fun (scheme, _) => Text.byteLength scheme + 3

/-- The offsets of the authority. -/
def authorityOffsets? (url : Text) : Option (Nat × Nat) :=
  (split? url).map fun s =>
    let start := Text.byteLength s.scheme + 3
    (start, start + Text.byteLength s.authority)

/-- The offsets of the host. -/
def hostOffsets? (url : Text) : Option (Nat × Nat) :=
  (split? url).bind fun s => (Authority.of? s.authority).map fun a =>
    let start := Text.byteLength s.scheme + 3 + Text.byteLength a.before
    (start, start + Text.byteLength a.host)

end Url

/-- The request of a URL, white space around it aside; none if it has no host. -/
def Request.ofUrl? (url : Text) : Option Request :=
  (Url.split? (Text.trim url)).bind fun s => (Url.Authority.of? s.authority).bind fun a =>
    if a.host = [] then none
    else
      let scheme := Text.lower s.scheme
      let host := Text.lower a.host
      let path := if s.rest.head? = some '/' then s.rest else '/' :: s.rest
      some ⟨scheme ++ "://".toList ++ a.before ++ host ++ a.after ++ path, host, scheme⟩

end ProxyRouting
