import ProxyRouting.Condition.Basic
import ProxyRouting.Condition.Error
import ProxyRouting.Expr.Basic
import ProxyRouting.Ip.Network

/-!
Conditions that the host is an address of a network. As an expression the host must first look like an
address of the family; a network of length zero asks for no more than that.
-/
namespace ProxyRouting

/-- The text of a network by the fields of a condition. -/
def subnetText (address : Text) (length : UInt8) : Text := address ++ '/' :: Text.ofNat length.toNat

namespace Ip.Network

/-- The network that the fields of a condition spell, brackets around the address aside. -/
def ofFields (address : Text) (length : UInt8) : Except ConditionError Network :=
  let bare := match address with
    | '[' :: rest => (Text.dropTail? [']'] rest).getD address
    | _ => address
  ((Address.ofText? bare).bind fun a => Network.of? a length.toNat).elim
    (.error (.invalidIp (subnetText bare length))) .ok

/-- The host is the text of an address in the network. -/
def containsHost (n : Network) (host : Text) : Bool := (addressOfText? host).any n.contains

/-- The host looks like an address of the family: it ends in a digit, or has a colon in it. -/
def familyExpr (n : Network) : Expr :=
  let host := Expr.name "host"
  if n.address.isV4 then
    .binary .ge (.subscript host (.binary .sub (.member host "length".toList) (.number 1))) (.number 0)
  else .binary .ge (host.method "indexOf" [.string [':']]) (.number 0)

/-- The host is an address of the network, in an expression. Where a script is given `isInNetEx`, it
    is asked about IPv6. -/
def toExpr (n : Network) : Expr :=
  let host := Expr.name "host"
  let byMask := Expr.call (.name "isInNet") [host, .string n.address.toText, .string n.mask.toText]
  if n.length = 0 then n.familyExpr
  else if n.address.isV4 then .binary .and n.familyExpr byMask
  else
    let byLength := Expr.call (.name "isInNetEx") [host, .string n.toText]
    let known := Expr.binary .strictEq (.unary .typeOf (.name "isInNetEx")) (.string "function".toList)
    .binary .and n.familyExpr (.conditional known byLength byMask)

end Ip.Network

/-- The condition for a network from its text; a text that is none gives all of IPv4. -/
def Condition.ipOfText (t : Text) : Condition :=
  match Ip.Network.ofText? t with
  | some n => .ip n.address.toText (UInt8.ofNat n.length)
  | none => .ip "0.0.0.0".toList 0

end ProxyRouting
