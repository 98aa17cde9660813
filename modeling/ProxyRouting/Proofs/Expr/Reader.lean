import Mathlib.Data.Nat.Init
import ProxyRouting.Expr.Printer
import ProxyRouting.Json.Reader

/-!
A reader of printed expressions. It reads a first operand, and then, as long as what follows binds tightly enough,
takes all it has read for the left operand of that. White space it knows only where the printer writes it.
-/
namespace ProxyRouting.Expr

/-- A character of a name. Those of escapes that may stand in a name are among them. -/
def isNameChar (c : Char) : Bool := c.isAlphanum || "_$\\\x7b\x7d".toList.contains c || 127 < c.toNat

theorem length_behind (t : Text) : (t.dropWhile isNameChar).length ≤ t.length := (List.dropWhile_suffix _).length_le

/-- The rest of a regular expression literal, up to its closing slash. -/
def readRegex : Text → Option (Text × Text)
  | '/' :: t => some ([], t)
  | '\\' :: c :: t => (readRegex t).map fun found => ('\\' :: c :: found.1, found.2)
  | c :: t => (readRegex t).map fun found => (c :: found.1, found.2)
  | [] => none

/-- The operator that begins a text, and what is behind the space after it. -/
def operator? (t : Text) : Option (BinaryOp × Text) :=
  [.strictEq, .lt, .le, .gt, .ge, .sub, .and, .or].findSome? fun op =>
    (Text.dropLead? (op.symbol ++ [' ']) t).map fun rest => (op, rest)

/-- The names that are left of a list in parentheses, at least one. -/
def readNames (t : Text) : Option (List Text × Text) :=
  match _cut : t.dropWhile isNameChar with
  | ')' :: rest => some ([t.takeWhile isNameChar], rest)
  | ',' :: ' ' :: rest => (readNames rest).map fun found => (t.takeWhile isNameChar :: found.1, found.2)
  | _ => none
termination_by t.length
decreasing_by
  have := length_behind t
  simp only [_cut, List.length_cons] at this
  omega

/-- The parameters of a function, up to the closing parenthesis. -/
def readParams : Text → Option (List Text × Text)
  | ')' :: t => some ([], t)
  | t => readNames t

/-- How tightly what follows would hold a left operand: more than the precedence of an operator, so that zero is
    left for what takes none. The access to a member holds more tightly than a call, which the callee of `new` leaves
    to it. -/
def grip : Text → Nat
  | '(' :: _ => callPrecedence + 1
  | '.' :: _ => callPrecedence + 2
  | '[' :: _ => callPrecedence + 2
  | ' ' :: '?' :: ' ' :: _ => conditionalPrecedence + 1
  | ' ' :: t => ((operator? t).map fun found => found.1.precedence + 1).getD 0
  | _ => 0

/-- Reads on behind what has been found in a text. What is left of a text is never longer than the text. -/
def readOn {α β : Type} (t : Text) (found : Option (α × Text))
    (next : α → (rest : Text) → rest.length ≤ t.length → Option β) : Option β :=
  found.bind fun found => if shorter : found.2.length ≤ t.length then next found.1 found.2 shorter else none

theorem readOn_some {α β : Type} {t rest : Text} {a : α} {next : α → (rest : Text) → rest.length ≤ t.length → Option β}
    (shorter : rest.length ≤ t.length) : readOn t (some (a, rest)) next = next a rest shorter := by
  simp [readOn, shorter]

mutual

/-- Reads an expression together with all that holds it more tightly than `level`. -/
def readExpr (level : Nat) (t : Text) : Option (Expr × Text) :=
  readOn t (readHead t) fun head rest _ => readTail level head rest
termination_by 4 * t.length + 2

/-- Reads an operand that is no left side of anything yet. -/
def readHead (t : Text) : Option (Expr × Text) :=
  match t with
  | '(' :: t => (readExpr 0 t).bind fun found => (Text.dropLead? [')'] found.2).map fun rest => (found.1, rest)
  | '"' :: t => (Json.readString t).toOption.map fun found => (.string found.1, found.2)
  | '/' :: t => (readRegex t).map fun found => (.regex found.1, found.2)
  | '!' :: t => (readExpr unaryPrecedence t).map fun found => (.unary .not found.1, found.2)
  | '-' :: t => some (.number (-Text.digitsValue (t.takeWhile isNameChar)), t.dropWhile isNameChar)
  | t => readWord (t.takeWhile isNameChar) (t.dropWhile isNameChar)
termination_by 4 * t.length + 1
decreasing_by
  · simp; omega
  · simp; omega
  · have := length_behind t; omega

/-- Reads what begins with a word. -/
def readWord (word t : Text) : Option (Expr × Text) :=
  if word = "true".toList then some (.bool true, t)
  else if word = "false".toList then some (.bool false, t)
  else if word = "typeof".toList then
    match t with
    | ' ' :: t => (readExpr unaryPrecedence t).map fun found => (.unary .typeOf found.1, found.2)
    | _ => none
  else if word = "new".toList then
    match t with
    | ' ' :: t =>
      readOn t (readExpr (callPrecedence + 1) t) fun callee rest shorter =>
        match rest, shorter with
        | '(' :: rest, _ => (readArgs rest).map fun found => (.construct callee found.1, found.2)
        | _, _ => none
    | _ => none
  else if word = "function".toList then
    match t with
    | ' ' :: '(' :: t =>
      readOn t (readParams t) fun params rest _ =>
        match _cut : Text.dropLead? " \x7b return ".toList rest with
        | some rest =>
          (readExpr 0 rest).bind fun body =>
            (Text.dropLead? "; \x7d".toList body.2).map fun rest => (.function params body.1, rest)
        | none => none
    | _ => none
  else if word.head?.any Char.isDigit then some (.number (Text.digitsValue word), t)
  else if word = [] then none
  else some (.ident word, t)
termination_by 4 * t.length
decreasing_by
  · simp only [List.length_cons]
    omega
  · simp only [List.length_cons]
    omega
  · simp only [List.length_cons] at *
    omega
  · have := congrArg List.length (Text.dropLead?_eq_some.1 _cut)
    simp at this ⊢
    omega

/-- Goes on behind the expression that has been read, as long as it is held more tightly than `level`. -/
def readTail (level : Nat) (left : Expr) (t : Text) : Option (Expr × Text) :=
  if grip t ≤ level then some (left, t)
  else
    match t with
    | '(' :: t => readOn t (readArgs t) fun args rest _ => readTail level (.call left args) rest
    | '.' :: t => readTail level (.member left (t.takeWhile isNameChar)) (t.dropWhile isNameChar)
    | '[' :: t =>
      readOn t (readExpr 0 t) fun index rest shorter =>
        match rest, shorter with
        | ']' :: rest, _ => readTail level (.subscript left index) rest
        | _, _ => none
    | ' ' :: '?' :: ' ' :: t =>
      readOn t (readExpr conditionalPrecedence t) fun consequent rest shorter =>
        match rest, shorter with
        | ' ' :: ':' :: ' ' :: rest, _ =>
          readOn rest (readExpr conditionalPrecedence rest) fun alternative rest _ =>
            readTail level (.conditional left consequent alternative) rest
        | _, _ => none
    | ' ' :: t =>
      readOn t (operator? t) fun op rest _ =>
        readOn rest (readExpr (op.precedence + 1) rest) fun right rest _ =>
          readTail level (.binary op left right) rest
    | _ => none
termination_by 4 * t.length
decreasing_by
  all_goals
    have := length_behind t
    simp only [List.length_cons] at *
    omega

/-- The arguments of a call, up to the closing parenthesis. -/
def readArgs (t : Text) : Option (List Expr × Text) :=
  match t with
  | ')' :: t => some ([], t)
  | t =>
    readOn t (readExpr conditionalPrecedence t) fun e rest _ =>
      (readMoreArgs rest).map fun found => (e :: found.1, found.2)
termination_by 4 * t.length + 3

/-- The arguments behind one that has been read. -/
def readMoreArgs (t : Text) : Option (List Expr × Text) :=
  match t with
  | ')' :: t => some ([], t)
  | ',' :: ' ' :: t =>
    readOn t (readExpr conditionalPrecedence t) fun e rest _ =>
      (readMoreArgs rest).map fun found => (e :: found.1, found.2)
  | _ => none
termination_by 4 * t.length

end

end ProxyRouting.Expr
