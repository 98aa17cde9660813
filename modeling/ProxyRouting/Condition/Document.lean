import ProxyRouting.Condition.Basic
import ProxyRouting.Json.Reader

/-!
Conditions as JSON documents: an object with the name of the kind under `conditionType` and the other
fields by their names. Instead of the object an array may hold the kind and the fields in order. A field
that may be missing takes its default; one that is not known is passed over.
-/
namespace ProxyRouting.Condition

/-- The key of the kind. -/
def kindKey : Text := "conditionType".toList

/-- The keys of the other fields of a kind, in order. -/
def fieldKeys : ConditionKind → List Text
  | .always => []
  | .never => ["pattern".toList]
  | .urlRegex => ["pattern".toList]
  | .urlWildcard => ["pattern".toList]
  | .hostRegex => ["pattern".toList]
  | .hostWildcard => ["pattern".toList]
  | .bypass => ["pattern".toList]
  | .keyword => ["pattern".toList]
  | .ip => ["ip".toList, "prefixLength".toList]
  | .hostLevels => ["minValue".toList, "maxValue".toList]
  | .weekday => ["days".toList, "startDay".toList, "endDay".toList]
  | .time => ["startHour".toList, "endHour".toList]

/-- A text as a value. -/
def textField (t : Text) : Option Json := some (.str t)

/-- A number as a value. -/
def numberField (n : Nat) : Option Json := some (.whole n)

/-- The values of the other fields, in order; an absent one is left out. -/
def fieldValues : Condition → List (Option Json)
  | .always => []
  | .never note => [note.map .str]
  | .urlRegex pattern => [textField pattern]
  | .urlWildcard pattern => [textField pattern]
  | .hostRegex pattern => [textField pattern]
  | .hostWildcard pattern => [textField pattern]
  | .bypass pattern => [textField pattern]
  | .keyword pattern => [textField pattern]
  | .ip address length => [textField address, numberField length.toNat]
  | .hostLevels min max => [numberField min.toNat, numberField max.toNat]
  | .weekday mask first last => [mask.map .str, numberField first.toNat, numberField last.toNat]
  | .time first last => [numberField first.toNat, numberField last.toNat]

/-- The document of a condition. -/
def toJson (c : Condition) : Json :=
  .obj ((kindKey, .str c.kind.name) ::
    ((fieldKeys c.kind).zip c.fieldValues).filterMap fun (key, value) => value.map fun j => (key, j))

/-- A text that has to be there. -/
def text? : Option Json → Option Text
  | some (.str t) => some t
  | _ => none

/-- A text that may be missing or null. -/
def optionalText? : Option Json → Option (Option Text)
  | none => some none
  | some .null => some none
  | some (.str t) => some (some t)
  | some _ => none

/-- A whole number below a limit that has to be there. -/
def number? (limit : Nat) : Option Json → Option Nat
  | some (.whole n) => if 0 ≤ n ∧ n < limit then some n.toNat else none
  | _ => none

/-- A byte that has to be there. -/
def byte? (value : Option Json) : Option UInt8 := (number? (2 ^ 8) value).map UInt8.ofNat

/-- A 32-bit number that has to be there. -/
def word? (value : Option Json) : Option UInt32 := (number? (2 ^ 32) value).map UInt32.ofNat

/-- A byte that is zero when missing. -/
def byteOrZero? : Option Json → Option UInt8
  | none => some 0
  | value => byte? value

/-- The condition of a kind from the values of its fields, in order. -/
def ofFields? : ConditionKind → List (Option Json) → Option Condition
  | .always, _ => some .always
  | .never, [note] => (optionalText? note).map .never
  | .urlRegex, [pattern] => (text? pattern).map .urlRegex
  | .urlWildcard, [pattern] => (text? pattern).map .urlWildcard
  | .hostRegex, [pattern] => (text? pattern).map .hostRegex
  | .hostWildcard, [pattern] => (text? pattern).map .hostWildcard
  | .bypass, [pattern] => (text? pattern).map .bypass
  | .keyword, [pattern] => (text? pattern).map .keyword
  | .ip, [address, length] => do some (.ip (← text? address) (← byte? length))
  | .hostLevels, [min, max] => do some (.hostLevels (← word? min) (← word? max))
  | .weekday, [mask, first, last] => do
    some (.weekday (← optionalText? mask) (← byteOrZero? first) (← byteOrZero? last))
  | .time, [first, last] => do some (.time (← byte? first) (← byte? last))
  | _, _ => none

/-- The value of a field among others; none if it stands there twice. -/
def fieldOnce? (fields : List (Text × Json)) (key : Text) : Option (Option Json) :=
  match fields.filter fun f => f.1 = key with
  | [] => some none
  | [(_, j)] => some (some j)
  | _ => none

/-- The condition of a kind from an object's other fields. -/
def ofObject? (kind : ConditionKind) (fields : List (Text × Json)) : Option Condition :=
  ((fieldKeys kind).mapM (fieldOnce? fields)).bind (ofFields? kind)

/-- The condition of a kind from an array's other items. -/
def ofArray? (kind : ConditionKind) (items : List Json) : Option Condition :=
  let keys := fieldKeys kind
  if keys.length < items.length then none
  else ofFields? kind (items.map some ++ List.replicate (keys.length - items.length) none)

/-- How a document may give its kind: by name, or also by number. -/
inductive KindForm
  | named
  | numbered
  deriving DecidableEq, Repr

/-- The kind that a value gives. -/
def kindOf? (form : KindForm) : Json → Option ConditionKind
  | .str name => ConditionKind.ofName? name
  | .whole n => if form = .numbered ∧ 0 ≤ n then ConditionKind.ofCode? n.toNat else none
  | _ => none

/-- The condition of a document. -/
def ofJson? (form : KindForm) : Json → Option Condition
  | .obj fields => do
    let kind ← kindOf? form (← (← fieldOnce? fields kindKey))
    ofObject? kind fields
  | .arr (j :: js) => do
    let kind ← kindOf? form j
    ofArray? kind js
  | _ => none

/-- Reads a value and takes it for a kind; other than a text it is refused, arrays and objects at once. -/
def readKind (t : Text) : Json.Reading ConditionKind :=
  match Json.readWith (fun _ => .error .mismatched) (fun _ => .error .mismatched) t with
  | .error fault => .error fault
  | .ok (j, t) => (kindOf? .named j).elim (.error .mismatched) fun kind => .ok (kind, t)

/-- What an object has told so far: its kind, and the other fields, the last one first. -/
abbrev Draft := Option ConditionKind × List (Text × Json)

/-- Reads one more field behind its key. A second kind is refused before it is read. -/
def readField (draft : Draft) (key t : Text) : Json.Reading Draft :=
  if key = kindKey then
    match draft.1 with
    | some _ => .error .mismatched
    | none =>
      match Json.readColon t with
      | .error fault => .error fault
      | .ok ((), t) => (readKind t).map fun (kind, t) => ((some kind, draft.2), t)
  else
    match Json.readColon t with
    | .error fault => .error fault
    | .ok ((), t) =>
      (Json.readValue (Json.maxDepth - 1) t).map fun (j, t) => ((draft.1, (key, j) :: draft.2), t)

/-- Reads the fields of an object behind its brace or, unless `isFirst`, behind a field. -/
def readFields : Nat → Bool → Draft → Text → Json.Reading Draft
  | 0, _, _, _ => .error .truncated
  | fuel + 1, isFirst, draft, t =>
    match Json.skipSpace t with
    | [] => .error .truncated
    | '\x7d' :: t => .ok (draft, t)
    | c :: t =>
      if isFirst then next fuel draft (c :: t)
      else if c = ',' then next fuel draft (Json.skipSpace t)
      else .error .malformed
where
  /-- A field and those behind it. -/
  next (fuel : Nat) (draft : Draft) : Text → Json.Reading Draft
    | [] => .error .truncated
    | '"' :: t =>
      match Json.readString t with
      | .error fault => .error fault
      | .ok (key, t) =>
        match readField draft key t with
        | .error fault => .error fault
        | .ok (draft, t) => readFields fuel false draft t
    | _ => .error .malformed

/-- Reads an array behind its bracket: the kind, and the items behind it. -/
def readItems (t : Text) : Json.Reading (ConditionKind × List Json) :=
  match Json.skipSpace t with
  | [] => .error .truncated
  | ']' :: _ => .error .mismatched
  | t =>
    match readKind t with
    | .error fault => .error fault
    | .ok (kind, t) =>
      (Json.readItems (Json.readValue (Json.maxDepth - 1)) (t.length + 1) false t).map fun (js, t) => ((kind, js), t)

/-- Reads a condition from the front of a text. -/
def readJson (t : Text) : Json.Reading Condition :=
  match Json.skipSpace t with
  | '\x7b' :: t =>
    match readFields (t.length + 1) true (none, []) t with
    | .error fault => .error fault
    | .ok ((kind, fields), t) =>
      (kind.bind fun kind => ofObject? kind fields).elim (.error .mismatched) fun c => .ok (c, t)
  | '[' :: t =>
    match readItems t with
    | .error fault => .error fault
    | .ok ((kind, items), t) => (ofArray? kind items).elim (.error .mismatched) fun c => .ok (c, t)
  | t =>
    match Json.readValue 0 t with
    | .error fault => .error fault
    | .ok _ => .error .mismatched

/-- The condition of a whole text. A wrong shape is noticed before whatever follows the document. -/
def ofJsonText (t : Text) : Except Json.Fault Condition :=
  match readJson t with
  | .error fault => .error fault
  | .ok (c, t) => (Json.readEnd t).map fun () => c

end ProxyRouting.Condition
