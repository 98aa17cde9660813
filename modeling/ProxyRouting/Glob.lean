import ProxyRouting.Regex.Source
import ProxyRouting.Text.WordTable

/-!
Globs: `*` stands for any run of characters, `?` for one, every other character for itself. A glob is
written as the source of a regular expression, anchored at both ends or, for searching, with the stars
at its ends traded for missing anchors. A list separates globs by bars.
-/
namespace ProxyRouting.Glob

/-- Characters a regular expression source has to escape. -/
def isSpecial (c : Char) : Bool := "\\[]^$.|?*+()\x7b\x7d".toList.contains c

/-- One glob character as a regular expression. -/
def charBody (c : Char) : Text :=
  if c = '*' then ".*".toList else if c = '?' then ['.'] else if isSpecial c then ['\\', c] else [c]

/-- A glob as a regular expression without anchors. -/
def body (glob : Text) : Text := glob.flatMap charBody

/-- The glob without the stars at its ends. -/
def trimStars (glob : Text) : Text :=
  ((glob.dropWhile (· = '*')).reverse.dropWhile (· = '*')).reverse

/-- A glob as a regular expression that matches it as a whole. -/
def anchored (glob : Text) : Text := '^' :: body glob ++ ['$']

/-- The same by searching: an end that has stars loses them, and its anchor. -/
def searching (glob : Text) : Text :=
  (if glob.head? = some '*' then [] else ['^']) ++ body (trimStars glob) ++
    (if glob.getLast? = some '*' then [] else ['$'])

/-- A glob as a regular expression, in either form. -/
def toRegex (trim : Bool) (glob : Text) : Text := if trim then searching glob else anchored glob

/-- The globs of a list; empty ones do not count. -/
def segments (list : Text) : List Text := (list.splitOn '|').filter (· ≠ [])

/-- A list of globs as the alternatives of one regular expression. -/
def listToRegex (trim : Bool) (list : Text) : Text := Text.join ['|'] ((segments list).map (toRegex trim))

/-- A character of the globs for hosts that a URL glob may contain. -/
def isHostGlobChar (c : Char) : Bool := Text.isWord c || "?*._-".toList.contains c

/-- The host glob of a URL glob of the form `*://HOST/*`. -/
def hostOfUrlGlob? (glob : Text) : Option Text :=
  match Text.dropLead? "*://".toList glob with
  | none => none
  | some rest =>
    match Text.dropTail? "/*".toList rest with
    | some host => if host ≠ [] ∧ host.all isHostGlobChar then some host else none
    | none => none

end ProxyRouting.Glob
