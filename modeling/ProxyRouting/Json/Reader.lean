import ProxyRouting.Json.Basic
import ProxyRouting.Number.Decimal
import ProxyRouting.Regex.Escape

/-!
Reading JSON. A text that ends too early is told from one that goes wrong before, and both from one
that is no more than unexpected, which only a reader of a certain shape finds. Arrays and objects
may be nested 127 deep, strings hold no raw control characters and no lone surrogates, and a number
must not exceed every double.
-/
namespace ProxyRouting.Json

/-- Why a text is not what was to be read: it ended early, it is no JSON, or it is JSON of another
    shape. -/
inductive Fault
  | truncated
  | malformed
  | mismatched
  deriving DecidableEq, Repr

/-- A value read from the front of a text, with the text behind it. -/
abbrev Reading (α : Type) := Except Fault (α × Text)

/-- The text without the blanks, tabs and line ends it starts with. -/
def skipSpace (t : Text) : Text :=
  t.dropWhile fun c => c == ' ' || c == '\n' || c == '\t' || c == '\r'

/-- The four hexadecimal digits of a unit; with less than four bytes left the text has ended. -/
def readUnit (t : Text) : Reading Nat :=
  match Text.hexDigits? 4 t with
  | some read => .ok read
  | none => .error (if Text.byteLength t < 4 then .truncated else .malformed)

/-- The second unit of a pair, escaped like the first. -/
def readSecondUnit : Text → Reading Nat
  | [] => .error .truncated
  | c :: t =>
    if c = '\\' then
      match t with
      | [] => .error .truncated
      | d :: t => if d = 'u' then readUnit t else .error .malformed
    else .error .malformed

/-- The character of an escaped unit, which takes a second unit if it is a high surrogate. -/
def readUnicode (t : Text) : Reading Char :=
  match readUnit t with
  | .error fault => .error fault
  | .ok (unit, rest) =>
    if unit < 0xD800 ∨ 0xDFFF < unit then .ok (Char.ofNat unit, rest)
    else if 0xDC00 ≤ unit then .error .malformed
    else
      match readSecondUnit rest with
      | .error fault => .error fault
      | .ok (low, rest) =>
        if 0xDC00 ≤ low ∧ low ≤ 0xDFFF then
          .ok (Char.ofNat (0x10000 + (unit - 0xD800) * 0x400 + (low - 0xDC00)), rest)
        else .error .malformed

theorem readUnit_length {t rest : Text} {n : Nat} (read : readUnit t = .ok (n, rest)) : rest.length ≤ t.length := by
  unfold readUnit at read
  split at read
  · next found => cases read; exact (Regex.hexDigits?_suffix found).length_le
  · cases read

theorem readSecondUnit_length {t rest : Text} {n : Nat} (read : readSecondUnit t = .ok (n, rest)) :
    rest.length ≤ t.length := by
  unfold readSecondUnit at read
  split at read
  · cases read
  · split at read
    · split at read
      · cases read
      · split at read
        · have := readUnit_length read; simp; omega
        · cases read
    · cases read

theorem readUnicode_length {t rest : Text} {c : Char} (read : readUnicode t = .ok (c, rest)) :
    rest.length ≤ t.length := by
  unfold readUnicode at read
  split at read
  · cases read
  · next first =>
    have := readUnit_length first
    split at read
    · cases read; exact this
    · split at read
      · cases read
      · split at read
        · cases read
        · next second =>
          have := readSecondUnit_length second
          split at read
          · simp only [Except.ok.injEq, Prod.mk.injEq] at read
            have := congrArg List.length read.2
            omega
          · cases read

/-- The character a letter behind a backslash stands for. -/
def shortEscape? : Char → Option Char
  | '"' => some '"'
  | '\\' => some '\\'
  | '/' => some '/'
  | 'b' => some '\x08'
  | 'f' => some '\x0c'
  | 'n' => some '\n'
  | 'r' => some '\r'
  | 't' => some '\t'
  | _ => none

/-- The character of an escape, read behind its backslash. -/
def readEscape : Text → Reading Char
  | [] => .error .truncated
  | c :: t =>
    match shortEscape? c with
    | some d => .ok (d, t)
    | none => if c = 'u' then readUnicode t else .error .malformed

theorem readEscape_length {t rest : Text} {c : Char} (read : readEscape t = .ok (c, rest)) :
    rest.length ≤ t.length := by
  unfold readEscape at read
  split at read
  · cases read
  · split at read
    · cases read; simp
    · split at read
      · have := readUnicode_length read; simp; omega
      · cases read

/-- The rest of a string, up to and including its closing quote. -/
def readString : Text → Reading Text
  | [] => .error .truncated
  | c :: t =>
    if c = '"' then .ok ([], t)
    else if c = '\\' then
      match _read : readEscape t with
      | .error fault => .error fault
      | .ok (d, rest) =>
        match readString rest with
        | .error fault => .error fault
        | .ok (s, rest) => .ok (d :: s, rest)
    else if c.toNat < 0x20 then .error .malformed
    else
      match readString t with
      | .error fault => .error fault
      | .ok (s, rest) => .ok (c :: s, rest)
termination_by t => t.length
decreasing_by
  · have := readEscape_length _read; simp; omega
  · simp

/-- The digits at the front of a text, of which there must be one. -/
def readDigits (t : Text) : Reading Text :=
  match t with
  | [] => .error .truncated
  | c :: _ => if c.isDigit then .ok (t.takeWhile Char.isDigit, t.dropWhile Char.isDigit) else .error .malformed

/-- The digits before the point: no zero leads another digit. -/
def readWhole : Text → Reading Text
  | [] => .error .truncated
  | ['0'] => .ok (['0'], [])
  | '0' :: c :: t => if c.isDigit then .error .malformed else .ok (['0'], c :: t)
  | t => readDigits t

/-- The point and the digits behind it, if there is a point. -/
def readFraction : Text → Reading Text
  | '.' :: t => (readDigits t).map fun (digits, rest) => ('.' :: digits, rest)
  | t => .ok ([], t)

/-- The exponent, if there is one. -/
def readExponent : Text → Reading Text
  | [] => .ok ([], [])
  | e :: t =>
    if e = 'e' ∨ e = 'E' then
      match t with
      | '-' :: t => (readDigits t).map fun (digits, rest) => (e :: '-' :: digits, rest)
      | '+' :: t => (readDigits t).map fun (digits, rest) => (e :: '+' :: digits, rest)
      | t => (readDigits t).map fun (digits, rest) => (e :: digits, rest)
    else .ok ([], e :: t)

/-- A number behind its sign. -/
def readNumber (negative : Bool) (t : Text) : Except Fault (Json × Text) := do
  let (digits, t) ← readWhole t
  let (fraction, t) ← readFraction t
  let (exponent, t) ← readExponent t
  let n := Text.digitsValue digits
  if fraction = [] ∧ exponent = [] ∧ ¬ (negative ∧ n = 0) then
    .ok (.whole (if negative then -n else n), t)
  else
    let spelling := (if negative then ['-'] else []) ++ digits ++ fraction ++ exponent
    match Binary64.ofDecimalText? spelling with
    | some (.infinite _) => .error .malformed
    | _ => .ok (.real spelling, t)

/-- The rest of a word that stands for a value. -/
def readWord (value : Json) : Text → Text → Reading Json
  | [], t => .ok (value, t)
  | _ :: _, [] => .error .truncated
  | w :: word, c :: t => if c = w then readWord value word t else .error .malformed

/-- The items of an array behind its opening bracket or, unless `isFirst`, behind an item. -/
def readItems {α : Type} (item : Text → Reading α) : Nat → Bool → Text → Reading (List α)
  | 0, _, _ => .error .truncated
  | fuel + 1, isFirst, t =>
    match skipSpace t with
    | [] => .error .truncated
    | ']' :: t => .ok ([], t)
    | c :: t =>
      if isFirst then next fuel (c :: t)
      else if c = ',' then
        match skipSpace t with
        | [] => .error .truncated
        | ']' :: _ => .error .malformed
        | t => next fuel t
      else .error .malformed
where
  /-- An item and those behind it. -/
  next (fuel : Nat) (t : Text) : Reading (List α) :=
    match item t with
    | .error fault => .error fault
    | .ok (a, t) => (readItems item fuel false t).map fun (as, t) => (a :: as, t)

/-- The colon between a key and its value. -/
def readColon (t : Text) : Reading Unit :=
  match skipSpace t with
  | [] => .error .truncated
  | ':' :: t => .ok ((), t)
  | _ => .error .malformed

/-- The fields of an object behind its opening brace or, unless `isFirst`, behind a field. -/
def readFields {α : Type} (value : Text → Text → Reading α) : Nat → Bool → Text → Reading (List (Text × α))
  | 0, _, _ => .error .truncated
  | fuel + 1, isFirst, t =>
    match skipSpace t with
    | [] => .error .truncated
    | '\x7d' :: t => .ok ([], t)
    | c :: t =>
      if isFirst then next fuel (c :: t)
      else if c = ',' then next fuel (skipSpace t)
      else .error .malformed
where
  /-- A field and those behind it. -/
  next (fuel : Nat) : Text → Reading (List (Text × α))
    | [] => .error .truncated
    | '"' :: t =>
      match readString t with
      | .error fault => .error fault
      | .ok (key, t) =>
        match readColon t with
        | .error fault => .error fault
        | .ok ((), t) =>
          match value key t with
          | .error fault => .error fault
          | .ok (a, t) => (readFields value fuel false t).map fun (fields, t) => ((key, a) :: fields, t)
    | _ => .error .malformed

/-- A value of any kind, arrays and objects by the given readers. -/
def readWith (array object : Text → Reading Json) (t : Text) : Reading Json :=
  match skipSpace t with
  | [] => .error .truncated
  | '[' :: t => array t
  | '\x7b' :: t => object t
  | '"' :: t => (readString t).map fun (s, t) => (.str s, t)
  | 't' :: t => readWord (.bool true) "rue".toList t
  | 'f' :: t => readWord (.bool false) "alse".toList t
  | 'n' :: t => readWord .null "ull".toList t
  | '-' :: t => readNumber true t
  | c :: t => if c.isDigit then readNumber false (c :: t) else .error .malformed

/-- A value with arrays and objects nested at most `depth` deep. -/
def readValue : Nat → Text → Reading Json
  | 0, t => readWith (fun _ => .error .malformed) (fun _ => .error .malformed) t
  | depth + 1, t =>
    readWith
      (fun t => (readItems (readValue depth) (t.length + 1) true t).map fun (items, t) => (.arr items, t))
      (fun t => (readFields (fun _ => readValue depth) (t.length + 1) true t).map fun (fields, t) => (.obj fields, t))
      t

/-- How deep arrays and objects may be nested. -/
def maxDepth : Nat := 127

/-- Nothing but blanks is left. -/
def readEnd (t : Text) : Except Fault Unit := if skipSpace t = [] then .ok () else .error .malformed

/-- The value a whole text spells. -/
def read (t : Text) : Except Fault Json :=
  match readValue maxDepth t with
  | .error fault => .error fault
  | .ok (j, rest) => (readEnd rest).map fun () => j

end ProxyRouting.Json
