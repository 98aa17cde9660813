import ProxyRouting.Url

/-!
What conditions and the requests they are asked about can be refused for.
-/
namespace ProxyRouting

/-- Why a condition or a request is refused. -/
inductive ConditionError
  | unknownKind (name : Text)
  | invalidIp (network : Text)
  | invalidUrl (url : Text)
  | unparsable (text : Text)
  deriving DecidableEq, Repr

/-- The wording of an error. -/
def ConditionError.message : ConditionError → Text
  | .unknownKind name => "Unknown condition type: ".toList ++ name
  | .invalidIp network => "Invalid IP address ".toList ++ network
  | .invalidUrl url => "Invalid URL: ".toList ++ url
  | .unparsable text => "Unparsable condition: ".toList ++ text

/-- The request of a URL. -/
def Request.ofUrl (url : Text) : Except ConditionError Request :=
  (Request.ofUrl? url).elim (.error (.invalidUrl (Text.trim url))) .ok

end ProxyRouting
