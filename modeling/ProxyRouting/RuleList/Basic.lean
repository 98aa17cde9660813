import ProxyRouting.Condition.TextForm
import ProxyRouting.Condition.Document
import ProxyRouting.Text.Quoted

/-!
Lists of conditions, of which any one may match. Their text has a condition on each line, next to blank
lines and comments; their document is an array of the documents of the conditions, or a single one.
-/
namespace ProxyRouting

/-- Conditions in order. -/
abbrev RuleList := List Condition

namespace RuleList

/-- Why a text is no list: a line that is no condition, by its number, or a document that is none. -/
inductive Fault
  | line (number : Nat) (text : Text)
  | document (fault : Json.Fault)
  deriving DecidableEq, Repr

/-- The wording of what is wrong with a document. -/
def documentMessage : Json.Fault → Text
  | .truncated => "unexpected end of the text".toList
  | .malformed => "malformed text".toList
  | .mismatched => "data did not match any variant of untagged enum Document".toList

/-- The wording of a fault. -/
def Fault.message : Fault → Text
  | .line number text =>
    "line ".toList ++ Text.ofNat number ++ ": unparsable condition ".toList ++ Text.cite text
  | .document fault => "invalid condition document: ".toList ++ documentMessage fault

/-- A trimmed line that says nothing: empty, or marked as a comment or a heading. -/
def isRemark (line : Text) : Bool := line.head?.all fun c => c = '!' || c = '#' || c = '['

/-- Reads lines, the first of which has the given number. -/
def ofLines : Nat → List Text → Except Fault RuleList
  | _, [] => .ok []
  | number, line :: lines =>
    let line := Text.trim line
    if isRemark line then ofLines (number + 1) lines
    else
      match Condition.ofText? line with
      | none => .error (.line number line)
      | some c => (ofLines (number + 1) lines).map (c :: ·)

/-- Reads the text of a list. -/
def ofText (t : Text) : Except Fault RuleList := ofLines 1 (t.splitOn '\n')

/-- The text of a list, a line for each condition. -/
def toText (cs : RuleList) : Text := cs.flatMap fun c => c.toText ++ ['\n']

/-- The list of a value: that of a single condition, or an array of them. -/
def ofJson? (j : Json) : Option RuleList :=
  match Condition.ofJson? .numbered j, j with
  | some c, _ => some [c]
  | none, .arr js => js.mapM (Condition.ofJson? .numbered)
  | none, _ => none

/-- Reads the document of a list. A wrong shape is noticed before whatever follows the document. -/
def ofJsonText (t : Text) : Except Fault RuleList :=
  match Json.readValue Json.maxDepth t with
  | .error fault => .error (.document fault)
  | .ok (j, rest) =>
    match ofJson? j with
    | none => .error (.document .mismatched)
    | some cs =>
      match Json.readEnd rest with
      | .ok () => .ok cs
      | .error fault => .error (.document fault)

/-- The document of a list. -/
def toJson (cs : RuleList) : Json := .arr (cs.map Condition.toJson)

end RuleList
end ProxyRouting
