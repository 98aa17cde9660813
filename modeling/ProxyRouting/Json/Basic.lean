import ProxyRouting.Text.Quoted

/-!
JSON values with their objects in the order written, and the two ways to write them: without any
space, and indented by two spaces a level.
-/
namespace ProxyRouting

/-- A JSON value. Only a number written without fraction and exponent is whole. -/
inductive Json
  | null
  | bool (b : Bool)
  | whole (n : Int)
  /-- Any other number, by its spelling. -/
  | real (spelling : Text)
  | str (t : Text)
  | arr (items : List Json)
  | obj (fields : List (Text × Json))
  deriving Repr, Inhabited

namespace Json

/-- A value of an object by its key, the last one if it is repeated. -/
def field? (key : Text) (fields : List (Text × Json)) : Option Json := fields.reverse.lookup key

mutual

/-- The value without any space. -/
def compact : Json → Text
  | .null => "null".toList
  | .bool true => "true".toList
  | .bool false => "false".toList
  | .whole n => Text.ofInt n
  | .real spelling => spelling
  | .str t => Text.quote t
  | .arr items => '[' :: compactItems items ++ [']']
  | .obj fields => '\x7b' :: compactFields fields ++ ['\x7d']

/-- Items between commas. -/
def compactItems : List Json → Text
  | [] => []
  | [j] => j.compact
  | j :: js => j.compact ++ ',' :: compactItems js

/-- Fields between commas. -/
def compactFields : List (Text × Json) → Text
  | [] => []
  | [(key, j)] => Text.quote key ++ ':' :: j.compact
  | (key, j) :: fields => Text.quote key ++ ':' :: j.compact ++ ',' :: compactFields fields

end

/-- The start of a line, so many levels deep. -/
def indent (level : Nat) : Text := '\n' :: List.replicate (2 * level) ' '

mutual

/-- The value on lines of its own, indented from the given level on. -/
def pretty (level : Nat) : Json → Text
  | .arr [] => "[]".toList
  | .arr (j :: js) => '[' :: prettyItems (level + 1) (j :: js) ++ indent level ++ [']']
  | .obj [] => ['\x7b', '\x7d']
  | .obj (f :: fs) => '\x7b' :: prettyFields (level + 1) (f :: fs) ++ indent level ++ ['\x7d']
  | .null => "null".toList
  | .bool true => "true".toList
  | .bool false => "false".toList
  | .whole n => Text.ofInt n
  | .real spelling => spelling
  | .str t => Text.quote t

/-- Items on lines of their own. -/
def prettyItems (level : Nat) : List Json → Text
  | [] => []
  | [j] => indent level ++ j.pretty level
  | j :: js => indent level ++ j.pretty level ++ ',' :: prettyItems level js

/-- Fields on lines of their own. -/
def prettyFields (level : Nat) : List (Text × Json) → Text
  | [] => []
  | [(key, j)] => indent level ++ Text.quote key ++ ':' :: ' ' :: j.pretty level
  | (key, j) :: fields =>
    indent level ++ Text.quote key ++ ':' :: ' ' :: j.pretty level ++ ',' :: prettyFields level fields

end

end Json
end ProxyRouting
