import ProxyRouting.Text.Basic

/-!
The kinds of conditions: their names in documents, and the abbreviations that the text form knows them
by. The first abbreviation of a kind is its shortest, the last one its own spelling.
-/
namespace ProxyRouting

/-- What a condition looks at, and how. -/
inductive ConditionKind
  | always
  | never
  | urlRegex
  | urlWildcard
  | hostRegex
  | hostWildcard
  | bypass
  | keyword
  | ip
  | hostLevels
  | weekday
  | time
  deriving DecidableEq, Repr

namespace ConditionKind

/-- Every kind, in the order of their codes. -/
def all : List ConditionKind :=
  [.always, .never, .urlRegex, .urlWildcard, .hostRegex, .hostWildcard, .bypass, .keyword, .ip, .hostLevels,
    .weekday, .time]

/-- The name of a kind in documents. -/
def name : ConditionKind → Text
  | .always => "TrueCondition".toList
  | .never => "FalseCondition".toList
  | .urlRegex => "UrlRegexCondition".toList
  | .urlWildcard => "UrlWildcardCondition".toList
  | .hostRegex => "HostRegexCondition".toList
  | .hostWildcard => "HostWildcardCondition".toList
  | .bypass => "BypassCondition".toList
  | .keyword => "KeywordCondition".toList
  | .ip => "IpCondition".toList
  | .hostLevels => "HostLevelsCondition".toList
  | .weekday => "WeekdayCondition".toList
  | .time => "TimeCondition".toList

/-- The abbreviations of a kind before the last one. -/
def shortNames : ConditionKind → List String
  | .always => []
  | .never => ["False"]
  | .urlRegex => ["UR", "URegex", "UrlR"]
  | .urlWildcard => ["U", "UW", "Url", "UrlW", "UWild", "UWildcard", "UrlWild"]
  | .hostRegex => ["R", "HR", "Regex", "HostR", "HRegex"]
  | .hostWildcard => ["", "H", "W", "HW", "Wild", "Wildcard", "Host", "HostW", "HWild", "HWildcard", "HostWild"]
  | .bypass => ["B"]
  | .keyword => ["K", "KW"]
  | .ip => []
  | .hostLevels => ["Lv", "Level", "Levels", "HL", "HLv", "HLevel", "HLevels", "HostL", "HostLv", "HostLevel"]
  | .weekday => ["WD", "Week", "Day"]
  | .time => ["T", "Time"]

/-- The abbreviation that the text form uses unless told otherwise. -/
def spelling : ConditionKind → String
  | .always => "True"
  | .never => "Disabled"
  | .urlRegex => "UrlRegex"
  | .urlWildcard => "UrlWildcard"
  | .hostRegex => "HostRegex"
  | .hostWildcard => "HostWildcard"
  | .bypass => "Bypass"
  | .keyword => "Keyword"
  | .ip => "Ip"
  | .hostLevels => "HostLevels"
  | .weekday => "Weekday"
  | .time => "Hour"

/-- The abbreviations of a kind, of which there is at least one. -/
def abbreviations (k : ConditionKind) : List Text := (k.shortNames ++ [k.spelling]).map String.toList

theorem abbreviations_length_pos (k : ConditionKind) : 0 < k.abbreviations.length := by
  simp [abbreviations]

/-- The abbreviation with an index, counted from the end when negative and around the list. -/
def abbreviation (k : ConditionKind) (index : Int) : Text :=
  k.abbreviations.get ⟨(index % k.abbreviations.length).toNat, by
    have := Int.emod_lt_of_pos index (Int.natCast_pos.2 k.abbreviations_length_pos)
    have := k.abbreviations_length_pos
    omega⟩

/-- The number of a kind. -/
def code (k : ConditionKind) : Nat := all.idxOf k

/-- The kind with a number. -/
def ofCode? (code : Nat) : Option ConditionKind := all[code]?

/-- The kind with a name. -/
def ofName? (name : Text) : Option ConditionKind := all.find? fun k => k.name = name

/-- The kind is known by an abbreviation or its name, upper and lower case being the same. -/
def isKnownBy (k : ConditionKind) (abbreviation : Text) : Bool :=
  (k.name :: k.abbreviations).any fun t => Text.upper t = Text.upper abbreviation

/-- The kind known by an abbreviation; nothing at all stands for host wildcards. -/
def ofAbbreviation? (abbreviation : Text) : Option ConditionKind := all.find? fun k => k.isKnownBy abbreviation

end ConditionKind
end ProxyRouting
