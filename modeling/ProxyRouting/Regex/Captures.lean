import ProxyRouting.Text.Basic

/-!
The capturing groups of a source, counted before it is read: whether a decimal escape is a back
reference, and `\k` a named one, depends on groups that open later.
-/
namespace ProxyRouting.Regex

/-- How many groups capture, and whether one of them has a name. -/
structure Captures where
  count : Nat
  named : Bool
  deriving DecidableEq, Repr

namespace Captures

/-- One more group. -/
def withGroup (isNamed : Bool) (c : Captures) : Captures := ⟨c.count + 1, c.named || isNamed⟩

/-- Counts the groups of a source, starting inside or outside a class. -/
def scan : Bool → Text → Captures
  | _, [] => ⟨0, false⟩
  | _, ['\\'] => ⟨0, false⟩
  | inClass, '\\' :: _ :: t => scan inClass t
  | inClass, c :: t =>
    if c = '[' then scan true t
    else if c = ']' then scan false t
    else if c = '(' ∧ inClass = false then
      match t with
      | '?' :: '<' :: next :: _ =>
        if next = '=' ∨ next = '!' then scan false t else (scan false t).withGroup true
      | '?' :: _ => scan false t
      | _ => (scan false t).withGroup false
    else scan inClass t

/-- The groups of a source. -/
def ofSource (source : Text) : Captures := scan false source

end Captures
end ProxyRouting.Regex
