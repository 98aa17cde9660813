import ProxyRouting.Condition.Range
import ProxyRouting.Condition.Subnet
import ProxyRouting.HostPattern
import ProxyRouting.Regex.Search

/-!
Entries of the bypass lists that browsers keep: `SCHEME://HOST:PORT` with scheme and port optional,
where the host is a glob, an address, or a network without a port; or `<local>`, which stands for the
machine itself and for all hosts without a dot.
-/
namespace ProxyRouting

/-- What an entry asks of the host. -/
inductive BypassHost
  | any
  | loopback
  | pattern (search : Regex.Search)

/-- An entry taken apart. -/
structure Bypass where
  scheme : Option Text
  network : Option Ip.Network
  host : BypassHost
  port : Option Text
  /-- With a port, the search in the URL that covers scheme, host and port. -/
  url : Option Regex.Search
  /-- The entry in its canonical spelling. -/
  normalized : Text

namespace Bypass

/-- The entry for the machine itself. -/
def localText : Text := "<local>".toList

/-- The scheme of an entry, and the rest. -/
def splitScheme (entry : Text) : Option Text × Text :=
  match Text.cut? "://".toList entry with
  | some (scheme, server) => (some scheme, server)
  | none => (none, entry)

/-- A network: an address, a slash, and a length that the family has. -/
def networkOfText? (server : Text) : Option Ip.Network := do
  let (address, length) ← Text.cut? ['/'] server
  let address ← Ip.Network.addressOfText? address
  let length ← readBound? length
  if 0 ≤ length ∧ length < 256 then Ip.Network.of? address length.toNat else none

/-- The host and the port behind the last colon, unless the whole is an address. -/
def splitPort (server : Text) : Text × Option Text :=
  match Ip.Network.addressOfText? server, Text.cutLast? ':' server with
  | none, some (host, port) => (host, if port = [] then none else some port)
  | _, _ => (server, none)

/-- The spelling of an address in a URL. -/
def bracketed (a : Ip.Address) : Text := if a.isV4 then a.toText else '[' :: a.toText ++ [']']

/-- The host as a glob, and its canonical spelling. -/
def hostGlob (host : Text) : Text × Text :=
  match Ip.Network.addressOfText? host with
  | some a => (a.toText, bracketed a)
  | none => (HostPattern.expandDot host, HostPattern.expandDot host)

/-- The source of the search in the URL for a host with a port. -/
def urlSource (scheme : Option Text) (host port : Text) : Text :=
  '^' :: (scheme.map Regex.quoteMeta).getD "[^:]+".toList ++ "://".toList ++ Glob.body host ++
    ':' :: Regex.quoteMeta port ++ ['/']

/-- The host part of an entry without a port; a star alone asks for nothing. -/
def hostOfGlob (glob : Text) : BypassHost :=
  if glob = ['*'] then .any else .pattern (.ofSource (Glob.toRegex true glob))

/-- Takes an entry apart. -/
def ofText (entry : Text) : Bypass :=
  if entry = localText then ⟨none, none, .loopback, none, none, localText⟩
  else
    let (scheme, server) := splitScheme entry
    let lead := (scheme.map (· ++ "://".toList)).getD []
    match networkOfText? server with
    | some n => ⟨scheme, some n, .any, none, none, lead ++ n.toText⟩
    | none =>
      let (host, port) := splitPort server
      let (glob, spelling) := hostGlob host
      match port with
      | some port =>
        ⟨scheme, none, .any, some port, some (.ofSource (urlSource scheme spelling port)),
          lead ++ spelling ++ ':' :: port⟩
      | none => ⟨scheme, none, hostOfGlob glob, none, none, lead ++ spelling⟩

/-- The host is the machine itself or has no dot. -/
def isLocal (host : Text) : Bool :=
  host = "127.0.0.1".toList || host = "::1".toList || '.' ∉ host

/-- The request is one that the entry bypasses. -/
def isMatch (b : Bypass) (r : Request) : Bool :=
  b.scheme.all (· = r.scheme) && b.network.all (·.containsHost r.host) &&
    match b.host with
    | .loopback => isLocal r.host
    | .pattern search => search.finds r.host && b.url.all (·.finds r.url)
    | .any => b.url.all (·.finds r.url)

/-- `isLocal` of the host as an expression. -/
def localExpr : Expr :=
  let host := Expr.name "host"
  .binary .or
    (.binary .or (.binary .strictEq host (.string "127.0.0.1".toList)) (.binary .strictEq host (.string "::1".toList)))
    (.binary .lt (host.method "indexOf" [.string ['.']]) (.number 0))

/-- The scheme is the given one, as an expression. -/
def schemeExpr (scheme : Text) : Expr := .binary .strictEq (.name "scheme") (.string scheme)

/-- What the entry asks of the host, as expressions. -/
def hostExprs (b : Bypass) : List Expr :=
  match b.host, b.network with
  | .pattern search, _ => [search.toExpr "host"]
  | _, some n => [n.toExpr]
  | _, none => []

/-- The entry as an expression. -/
def toExpr (b : Bypass) : Expr :=
  match b.url, b.host with
  | some search, _ => search.toExpr "url"
  | none, .loopback => localExpr
  | none, _ => .allOf (b.scheme.toList.map schemeExpr ++ b.hostExprs)

end Bypass
end ProxyRouting
