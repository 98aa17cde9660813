import ProxyRouting.Condition.Bypass

/-!
The text form of conditions: an abbreviation of the kind, a colon, and behind a space what the kind
needs to know. A host wildcard may stand alone, unless it could be read as anything else.
-/
namespace ProxyRouting.Condition

/-- What the text form says behind the colon. -/
def detail : Condition → Text
  | .always => []
  | .never note => note.getD []
  | .urlRegex pattern => pattern
  | .urlWildcard pattern => pattern
  | .hostRegex pattern => pattern
  | .hostWildcard pattern => pattern
  | .bypass pattern =>
    let normalized := (Bypass.ofText pattern).normalized
    if normalized = [] then pattern else normalized
  | .keyword pattern => pattern
  | .ip address length => subnetText address length
  | .hostLevels min max => rangeText min.toNat max.toNat
  | .weekday mask first last => (mask.filter (· ≠ [])).getD (rangeText first.toNat last.toNat)
  | .time first last => rangeText first.toNat last.toNat

/-- The host wildcard can stand without its kind: it does not end in a colon and has no space. -/
def standsAlone (pattern : Text) : Bool := pattern.getLast? ≠ some ':' && ' ' ∉ pattern

/-- The text form behind a given spelling of the kind. -/
def textWith (c : Condition) (kind : Text) : Text :=
  match c with
  | .hostWildcard pattern => if standsAlone pattern then pattern else spelled
  | _ => spelled
where
  /-- The spelling of the kind, a colon and the detail. -/
  spelled : Text := kind ++ ':' :: if c.detail = [] then [] else ' ' :: c.detail

/-- The text form with the abbreviation of an index, or with the full name of the kind. -/
def toTextAs (c : Condition) (abbreviation : Option Int) : Text :=
  c.textWith ((abbreviation.map c.kind.abbreviation).getD c.kind.name)

/-- The text form. -/
def toText (c : Condition) : Text := c.toTextAs (some (-1))

/-- A condition of a kind from what its text form says behind the colon. -/
def ofDetail (kind : ConditionKind) (t : Text) : Condition :=
  match kind with
  | .always => .always
  | .never => .never (if t = [] then none else some t)
  | .urlRegex => .urlRegex t
  | .urlWildcard => .urlWildcard t
  | .hostRegex => .hostRegex t
  | .hostWildcard => .hostWildcard t
  | .bypass => .bypass t
  | .keyword => .keyword t
  | .ip => .ipOfText t
  | .hostLevels => .hostLevelsOfText t
  | .weekday => .weekdayOfText t
  | .time => .timeOfText t

/-- The abbreviation of a trimmed text and the detail behind it: the first word, if a colon ends it.
    Without one the whole text is the detail of the empty abbreviation. -/
def splitDetail (t : Text) : Text × Text :=
  let word := t.takeWhile (· ≠ ' ')
  match Text.dropTail? [':'] word with
  | some abbreviation => (abbreviation, Text.trim (t.dropWhile (· ≠ ' ')))
  | none => ([], t)

/-- Reads the text form, white space around it aside; none if the abbreviation is unknown. -/
def ofText? (t : Text) : Option Condition :=
  let (abbreviation, detail) := splitDetail (Text.trim t)
  (ConditionKind.ofAbbreviation? abbreviation).map fun kind => ofDetail kind detail

/-- Reads the text form. -/
def ofText (t : Text) : Except ConditionError Condition := (ofText? t).elim (.error (.unparsable t)) .ok

/-- What an analysis depends on: the kind, and the text form; of a bypass entry, the entry as given. -/
def tag (c : Condition) : Text :=
  c.kind.name ++ '$' ::
    match c with
    | .bypass pattern => pattern
    | c => c.toText

end ProxyRouting.Condition
