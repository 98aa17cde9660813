import ProxyRouting.Text.Digits

/-!
What a regular expression of the script language can be refused for.
-/
namespace ProxyRouting.Regex

/-- The first fault of a source text, with the character offset where the message names one. -/
inductive Fault
  | unsupportedGroup (offset : Nat)
  | invalidGroupName (offset : Nat)
  | unbalancedGroup
  | unterminatedClass
  | rangeOutOfOrder (offset : Nat)
  | nothingToRepeat (offset : Nat)
  | invalidEscape (offset : Nat)
  | trailingBackslash
  deriving DecidableEq, Repr

/-- The wording of a fault. -/
def Fault.message : Fault → Text
  | .unsupportedGroup n => "unsupported group syntax at ".toList ++ Text.ofNat n
  | .invalidGroupName n => "invalid group name at ".toList ++ Text.ofNat n
  | .unbalancedGroup => "unbalanced parenthesis".toList
  | .unterminatedClass => "unterminated character class".toList
  | .rangeOutOfOrder n => "character class range out of order at ".toList ++ Text.ofNat n
  | .nothingToRepeat n => "nothing to repeat at ".toList ++ Text.ofNat n
  | .invalidEscape n => "invalid escape at ".toList ++ Text.ofNat n
  | .trailingBackslash => "pattern ends with a backslash".toList

end ProxyRouting.Regex
