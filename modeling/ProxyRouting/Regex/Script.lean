import ProxyRouting.Regex.Bracket
import ProxyRouting.Regex.Captures
import ProxyRouting.Regex.Token

/-!
Regular expression sources of the script language, read from left to right into tokens. A source is
refused at its first fault: groups of other dialects, unbalanced parentheses, unterminated or inverted
classes, a quantifier on a quantifier, a lone surrogate, a dangling backslash. All else has a meaning;
an unknown escape stands for its character, a brace that begins no quantifier for itself.
-/
namespace ProxyRouting.Regex

/-- What reading a token needs to know of the whole source: its length and its groups. -/
structure Source where
  length : Nat
  captures : Captures

/-- The facts about a source. -/
def Source.of (text : Text) : Source := ⟨text.length, Captures.ofSource text⟩

/-- The offset at which `rest` begins. -/
def Source.offset (s : Source) (rest : Text) : Nat := s.length - rest.length

/-- A character a group name may begin with. -/
def isNameStart (c : Char) : Bool := c == '_' || c.isAlpha

/-- The rest of a group name, up to and including the `>`. -/
def nameTail? : Text → Option (Text × Text)
  | [] => none
  | c :: t =>
    if c = '>' then some ([], t)
    else if isNameStart c || c.isDigit then (nameTail? t).map fun (name, rest) => (c :: name, rest)
    else none

/-- A group name, an ASCII identifier, with the `>` behind it. -/
def groupName? : Text → Option (Text × Text)
  | [] => none
  | c :: t => if isNameStart c then (nameTail? t).map fun (name, rest) => (c :: name, rest) else none

/-- The quantifier in braces whose text follows the opening one. -/
def braces? (t : Text) : Option (Quantifier × Text) :=
  let least := t.takeWhile Char.isDigit
  if least = [] then none
  else
    match t.dropWhile Char.isDigit with
    | '\x7d' :: rest => some (.exactly least, rest)
    | ',' :: t =>
      let most := t.takeWhile Char.isDigit
      match t.dropWhile Char.isDigit with
      | '\x7d' :: rest => some (if most = [] then .atLeast least else .between least most, rest)
      | _ => none
    | _ => none

/-- A quantifier begins here. -/
def startsQuantifier : Text → Bool
  | '*' :: _ => true
  | '+' :: _ => true
  | '?' :: _ => true
  | '\x7b' :: t => (braces? t).isSome
  | _ => false

/-- Whether a quantifier carries a lazy mark, and the text behind it. -/
def lazyMark : Text → Bool × Text
  | '?' :: rest => (true, rest)
  | t => (false, t)

/-- Finishes a quantifier: its lazy mark is read, and no second quantifier may follow. -/
def readQuantifier (s : Source) (q : Quantifier) (t : Text) : Except Fault (Token × Text) :=
  let mark := lazyMark t
  if startsQuantifier mark.2 then .error (.nothingToRepeat (s.offset mark.2))
  else .ok (.quantifier q mark.1, mark.2)

/-- Reads what opens a group, `offset` being that of its parenthesis. -/
def readGroup (offset : Nat) : Text → Except Fault (Token × Text)
  | '?' :: ':' :: t => .ok (.opening .plain, t)
  | '?' :: '=' :: t => .ok (.opening .ahead, t)
  | '?' :: '!' :: t => .ok (.opening .notAhead, t)
  | '?' :: '<' :: '=' :: t => .ok (.opening .behind, t)
  | '?' :: '<' :: '!' :: t => .ok (.opening .notBehind, t)
  | '?' :: '<' :: t =>
    match groupName? t with
    | some (name, rest) => .ok (.opening (.named name), rest)
    | none => .error (.invalidGroupName offset)
  | '?' :: _ => .error (.unsupportedGroup offset)
  | t => .ok (.opening .capture, t)

/-- The group a decimal escape refers to, if the source has that many. -/
def backref? (captures : Captures) (c : Char) (t : Text) : Option (Nat × Text) :=
  if '1' ≤ c ∧ c ≤ '9' then
    let group := Text.digitsValue (c :: t.takeWhile Char.isDigit)
    if group ≤ captures.count then some (group, t.dropWhile Char.isDigit) else none
  else none

/-- Reads an escape outside a class, `offset` being that of its backslash. -/
def readEscape (s : Source) (offset : Nat) : Text → Except Fault (Token × Text)
  | [] => .error .trailingBackslash
  | c :: t =>
    match CodeSet.ofEscape? c with
    | some set => .ok (.oneOf (CodeSet.scalars set), t)
    | none =>
      if c = 'b' then .ok (.boundary false, t)
      else if c = 'B' then .ok (.boundary true, t)
      else if c = 'k' ∧ s.captures.named then
        match t with
        | '<' :: t =>
          match groupName? t with
          | some (name, rest) => .ok (.namedBackref name, rest)
          | none => .error (.invalidEscape offset)
        | _ => .error (.invalidEscape offset)
      else
        match backref? s.captures c t with
        | some (group, rest) => .ok (.backref group, rest)
        | none =>
          match charEscape offset c t with
          | .ok (d, rest) => .ok (.code d, rest)
          | .error fault => .error fault

/-- Any character that does not end a line. -/
def anyChar : List CharRange := CodeSet.scalars (CodeSet.complement CodeSet.lineTerminators)

/-- Reads the token that begins with `c`. -/
def readToken (s : Source) (c : Char) (t : Text) : Except Fault (Token × Text) :=
  let offset := s.offset t - 1
  match c with
  | '\\' => readEscape s offset t
  | '[' =>
    match readClass s.length t with
    | .ok ((negated, items), rest) => .ok (.oneOf (CodeSet.scalars (classCodes negated items)), rest)
    | .error fault => .error fault
  | '(' => readGroup offset t
  | ')' => .ok (.closing, t)
  | '.' => .ok (.oneOf anyChar, t)
  | '*' => readQuantifier s .star t
  | '+' => readQuantifier s .plus t
  | '?' => readQuantifier s .optional t
  | '\x7b' =>
    match braces? t with
    | some (q, rest) => readQuantifier s q rest
    | none => .ok (.escaped c, t)
  | '\x7d' => .ok (.escaped c, t)
  | ']' => .ok (.escaped c, t)
  | '^' => .ok (.start, t)
  | '$' => .ok (.finish, t)
  | '|' => .ok (.bar, t)
  | c => .ok (.plain c, t)

/-! ## What is left is an end of the text -/

theorem nameTail?_suffix {t name rest : Text} (read : nameTail? t = some (name, rest)) : rest <:+ t := by
  induction t generalizing name with
  | nil => simp [nameTail?] at read
  | cons c t ih =>
    rw [nameTail?] at read
    split at read
    · cases read; exact List.suffix_cons c _
    · split at read
      · obtain ⟨⟨name', rest'⟩, inner, same⟩ := Option.map_eq_some_iff.1 read
        cases same
        exact (ih inner).trans (List.suffix_cons c t)
      · simp at read

theorem groupName?_suffix {t name rest : Text} (read : groupName? t = some (name, rest)) : rest <:+ t := by
  cases t with
  | nil => simp [groupName?] at read
  | cons c t =>
    rw [groupName?] at read
    split at read
    · obtain ⟨⟨name', rest'⟩, inner, same⟩ := Option.map_eq_some_iff.1 read
      cases same
      exact (nameTail?_suffix inner).trans (List.suffix_cons c t)
    · simp at read

theorem braces?_suffix {t rest : Text} {q : Quantifier} (read : braces? t = some (q, rest)) : rest <:+ t := by
  have behind {a : Char} {u v : Text} (dropped : v.dropWhile Char.isDigit = a :: u) : u <:+ v :=
    suffix_of_cons_suffix (dropped ▸ List.dropWhile_suffix Char.isDigit)
  unfold braces? at read
  simp only at read
  split at read
  · simp at read
  · split at read
    · next after => cases read; exact behind after
    · next after =>
      split at read
      · next after' => cases read; exact (behind after').trans (behind after)
      · simp at read
    · simp at read

theorem lazyMark_suffix (t : Text) : (lazyMark t).2 <:+ t := by
  unfold lazyMark
  split
  · exact List.suffix_cons _ _
  · exact List.suffix_rfl

theorem readQuantifier_suffix {s : Source} {q : Quantifier} {t rest : Text} {token : Token}
    (read : readQuantifier s q t = .ok (token, rest)) : rest <:+ t := by
  simp only [readQuantifier] at read
  split at read
  · cases read
  · cases read; exact lazyMark_suffix t

theorem readGroup_suffix {offset : Nat} {t rest : Text} {token : Token}
    (read : readGroup offset t = .ok (token, rest)) : rest <:+ t := by
  have two {a b : Char} {u : Text} : u <:+ a :: b :: u := (List.suffix_cons b u).trans (List.suffix_cons a _)
  unfold readGroup at read
  split at read
  · cases read; exact two
  · cases read; exact two
  · cases read; exact two
  · cases read; exact two.trans (List.suffix_cons _ _)
  · cases read; exact two.trans (List.suffix_cons _ _)
  · split at read
    · next found => cases read; exact (groupName?_suffix found).trans two
    · cases read
  · cases read
  · cases read; exact List.suffix_rfl

theorem backref?_suffix {captures : Captures} {c : Char} {t rest : Text} {n : Nat}
    (read : backref? captures c t = some (n, rest)) : rest <:+ t := by
  unfold backref? at read
  simp only at read
  split at read
  · split at read
    · cases read; exact List.dropWhile_suffix _
    · simp at read
  · simp at read

theorem readEscape_suffix {s : Source} {offset : Nat} {t rest : Text} {token : Token}
    (read : readEscape s offset t = .ok (token, rest)) : rest <:+ t := by
  unfold readEscape at read
  split at read
  · cases read
  · next c t =>
    have self : t <:+ c :: t := List.suffix_cons c t
    split at read
    · cases read; exact self
    · split at read
      · cases read; exact self
      · split at read
        · cases read; exact self
        · split at read
          · split at read
            · split at read
              · next found =>
                cases read; exact ((groupName?_suffix found).trans (List.suffix_cons _ _)).trans self
              · cases read
            · cases read
          · split at read
            · next found => cases read; exact (backref?_suffix found).trans self
            · split at read
              · next found => cases read; exact charEscape_suffix found
              · cases read

theorem readToken_suffix {s : Source} {c : Char} {t rest : Text} {token : Token}
    (read : readToken s c t = .ok (token, rest)) : rest <:+ t := by
  unfold readToken at read
  simp only at read
  split at read
  · exact readEscape_suffix read
  · split at read
    · next found => cases read; exact readClass_suffix found
    · cases read
  · exact readGroup_suffix read
  · cases read; exact List.suffix_rfl
  · cases read; exact List.suffix_rfl
  · exact readQuantifier_suffix read
  · exact readQuantifier_suffix read
  · exact readQuantifier_suffix read
  · split at read
    · next found => exact (readQuantifier_suffix read).trans (braces?_suffix found)
    · cases read; exact List.suffix_rfl
  all_goals cases read; exact List.suffix_rfl

/-! ## Sources -/

/-- How deep the parentheses are nested behind a token; none is below the ground. -/
def Token.depthAfter? (depth : Nat) : Token → Option Nat
  | .opening _ => some (depth + 1)
  | .closing => if depth = 0 then none else some (depth - 1)
  | _ => some depth

/-- Reads tokens to the end of the text, where every parenthesis must be closed. -/
def tokensFrom (s : Source) (depth : Nat) : Text → Except Fault (List Token)
  | [] => if depth = 0 then .ok [] else .error .unbalancedGroup
  | c :: t =>
    match _read : readToken s c t with
    | .error fault => .error fault
    | .ok (token, rest) =>
      match token.depthAfter? depth with
      | none => .error .unbalancedGroup
      | some depth =>
        match tokensFrom s depth rest with
        | .error fault => .error fault
        | .ok tokens => .ok (token :: tokens)
termination_by t => t.length
decreasing_by have := (readToken_suffix _read).length_le; simp; omega

/-- The tokens of a source. -/
def tokenize (source : Text) : Except Fault (List Token) := tokensFrom (.of source) 0 source

/-- The source in the engine's notation. -/
def engineSource (source : Text) : Except Fault Text := (tokenize source).map render

end ProxyRouting.Regex
