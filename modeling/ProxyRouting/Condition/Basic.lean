import ProxyRouting.Condition.Kind

/-!
Conditions, by which a request is sent one way or another: constants, patterns for the URL or the host,
networks, the number of labels of the host, days and hours.
-/
namespace ProxyRouting

/-- A condition. -/
inductive Condition
  | always
  /-- A condition that is switched off, with a note. -/
  | never (note : Option Text)
  | urlRegex (pattern : Text)
  | urlWildcard (pattern : Text)
  | hostRegex (pattern : Text)
  | hostWildcard (pattern : Text)
  /-- An entry of a list of hosts to bypass. -/
  | bypass (pattern : Text)
  /-- A part of the URL of an unencrypted request. -/
  | keyword (pattern : Text)
  | ip (address : Text) (length : UInt8)
  /-- Bounds for the number of dots in the host. -/
  | hostLevels (min max : UInt32)
  /-- A mask of days or, without one, the first and the last day. -/
  | weekday (mask : Option Text) (first last : UInt8)
  | time (first last : UInt8)
  deriving DecidableEq, Repr, Inhabited

namespace Condition

/-- The kind of a condition. -/
def kind : Condition → ConditionKind
  | .always => .always
  | .never _ => .never
  | .urlRegex _ => .urlRegex
  | .urlWildcard _ => .urlWildcard
  | .hostRegex _ => .hostRegex
  | .hostWildcard _ => .hostWildcard
  | .bypass _ => .bypass
  | .keyword _ => .keyword
  | .ip _ _ => .ip
  | .hostLevels _ _ => .hostLevels
  | .weekday _ _ _ => .weekday
  | .time _ _ => .time

/-- The pattern of a condition that has one. -/
def pattern? : Condition → Option Text
  | .never note => note
  | .urlRegex pattern => some pattern
  | .urlWildcard pattern => some pattern
  | .hostRegex pattern => some pattern
  | .hostWildcard pattern => some pattern
  | .bypass pattern => some pattern
  | .keyword pattern => some pattern
  | _ => none

end Condition
end ProxyRouting
