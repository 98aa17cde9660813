import ProxyRouting.Proofs.Regex.Nesting
import ProxyRouting.Regex.Script

/-!
Sources cut into lexemes. Unlike the reader, which stops at the first fault, the cut goes through the whole
source, whatever is wrong with it, and only names what it finds: an escape with what it consumes, a class from
its bracket to the first closing one that is not escaped, a quantifier with its lazy mark. What a source can be
refused for is then a property of its lexemes (`Flaw`), and of no order in which faults are met.
-/
namespace ProxyRouting.Regex

/-- What stands for one character or for a set of them, inside a class or outside. -/
inductive Sign
  /-- A character as it stands. -/
  | raw (c : Char)
  /-- An escape for one character, by its code; only `\u` can give half of a UTF-16 pair. -/
  | code (n : Nat)
  | set (s : CodeSet)
  deriving DecidableEq, Repr

/-- The code of the character that a sign stands for. -/
def Sign.code? : Sign → Option Nat
  | .raw c => some c.toNat
  | .code n => some n
  | .set _ => none

/-- The sign is half of a UTF-16 pair that stands alone. -/
def Sign.isHalf : Sign → Bool
  | .code n => CodeSet.isSurrogate n
  | _ => false

/-- The low half of a pair, when its escape comes first in a text. -/
def lowHalf? (t : Text) : Option (Nat × Text) :=
  (Text.dropLead? ['\\', 'u'] t).bind fun t =>
    (Text.hexDigits? 4 t).filter fun found => 0xDC00 ≤ found.1 && found.1 ≤ 0xDFFF

/-- The code of a unit, together with the low half escaped directly behind a high one. -/
def pairCode (unit : Nat) (t : Text) : Nat × Text :=
  match lowHalf? t with
  | some (low, rest) =>
    if 0xD800 ≤ unit ∧ unit < 0xDC00 then (0x10000 + (unit - 0xD800) * 0x400 + (low - 0xDC00), rest)
    else (unit, t)
  | none => (unit, t)

/-- The letters that stand for control characters behind a backslash, with the codes of these. -/
def controlCodes : List (Char × Nat) := [('t', 0x09), ('n', 0x0A), ('v', 0x0B), ('f', 0x0C), ('r', 0x0D)]

theorem lookup_controlCodes (c : Char) : controlCodes.lookup c = (controlLetter? c).map Char.toNat := by
  unfold controlLetter?
  split
  · rfl
  · rfl
  · rfl
  · rfl
  · rfl
  · next n r t f v =>
    have other {d : Char} (apart : c = d → False) : (c == d) = false := by simpa using apart
    simp only [controlCodes, List.lookup_cons, other t, other n, other v, other f, other r, List.lookup_nil,
      Option.map_none]

/-- The code that a backslash and `c` stand for with what they consume, and the text behind. Of `\c` without a
    letter behind it only the backslash is consumed. -/
def escapeCode (c : Char) (t : Text) : Nat × Text :=
  match controlCodes.lookup c with
  | some code => (code, t)
  | none =>
    match octalValue? c with
    | some digit => octalTail (if digit ≤ 3 then 2 else 1) digit t
    | none =>
      if c = 'x' then (Text.hexDigits? 2 t).getD ('x'.toNat, t)
      else if c = 'u' then
        match Text.hexDigits? 4 t with
        | some (unit, rest) => pairCode unit rest
        | none => ('u'.toNat, t)
      else if c = 'c' then
        match t with
        | letter :: rest => if letter.isAlpha then (letter.toNat % 32, rest) else ('\\'.toNat, c :: t)
        | [] => ('\\'.toNat, c :: t)
      else (c.toNat, t)

/-- The first sign of a class, which begins with `c`. -/
def classSign (c : Char) (t : Text) : Sign × Text :=
  match t with
  | [] => (.raw c, [])
  | d :: rest =>
    if c = '\\' then
      match CodeSet.ofEscape? d with
      | some s => (.set s, rest)
      | none => if d = 'b' then (.code 0x08, rest) else ((escapeCode d rest).map .code id)
    else (.raw c, t)

/-- The low end of a range is above its high end. -/
def isInverted (low high : Sign) : Bool :=
  match low.code?, high.code? with
  | some low, some high => high < low
  | _, _ => false

/-- Some range of a class is inverted. A dash between two signs makes a range, and takes both. -/
def anyInverted : List Sign → Bool
  | low :: dash :: high :: signs =>
    if dash = .raw '-' then isInverted low high || anyInverted signs else anyInverted (dash :: high :: signs)
  | _ => false

theorem lowHalf?_suffix {t rest : Text} {low : Nat} (found : lowHalf? t = some (low, rest)) : rest <:+ t := by
  obtain ⟨u, lead, digits⟩ := Option.bind_eq_some_iff.1 found
  have read := (Option.filter_eq_some_iff.1 digits).1
  rw [Text.dropLead?_eq_some.1 lead]
  exact (hexDigits?_suffix read).trans (List.suffix_append _ u)

theorem pairCode_suffix (unit : Nat) (t : Text) : (pairCode unit t).2 <:+ t := by
  unfold pairCode
  split
  · next found =>
    split
    · exact lowHalf?_suffix found
    · exact List.suffix_rfl
  · exact List.suffix_rfl

theorem escapeCode_suffix (c : Char) (t : Text) : (escapeCode c t).2 <:+ c :: t := by
  have self : t <:+ c :: t := List.suffix_cons c t
  unfold escapeCode
  split
  · exact self
  · split
    · exact (octalTail_suffix _ _ _).trans self
    · split
      · cases read : Text.hexDigits? 2 t with
        | none => exact self
        | some found => exact (hexDigits?_suffix read).trans self
      · split
        · split
          · next read => exact ((pairCode_suffix _ _).trans (hexDigits?_suffix read)).trans self
          · exact self
        · split
          · split
            · split
              · exact (List.suffix_cons _ _).trans self
              · exact List.suffix_rfl
            · exact List.suffix_rfl
          · exact self

theorem classSign_suffix (c : Char) (t : Text) : (classSign c t).2 <:+ t := by
  unfold classSign
  split
  · exact List.suffix_rfl
  · next d rest =>
    split
    · split
      · exact List.suffix_cons d rest
      · split
        · exact List.suffix_cons d rest
        · exact escapeCode_suffix d rest
    · exact List.suffix_rfl

/-- The signs of a class up to its closing bracket, and the text behind it. -/
def classSigns : Text → Option (List Sign × Text)
  | [] => none
  | c :: t =>
    if c = ']' then some ([], t)
    else (classSigns (classSign c t).2).map fun found => ((classSign c t).1 :: found.1, found.2)
termination_by t => t.length
decreasing_by have := (classSign_suffix c t).length_le; simp; omega

theorem classSigns_suffix {t rest : Text} {signs : List Sign} (found : classSigns t = some (signs, rest)) :
    rest <:+ t := by
  fun_induction classSigns t generalizing signs with
  | case1 => cases found
  | case2 => cases found; exact List.suffix_cons _ _
  | case3 c t _ ih =>
    obtain ⟨⟨others, behind⟩, inner, same⟩ := Option.map_eq_some_iff.1 found
    cases same
    exact ((ih inner).trans (classSign_suffix c t)).trans (List.suffix_cons c t)

/-- A piece of a source. -/
inductive Lexeme
  | sign (s : Sign)
  /-- `\b` or `\B`. -/
  | boundary
  /-- A backslash and a number that does not begin with a zero. Whether it is a group or an octal code with digits
      behind it depends on the groups there are. -/
  | decimal
  /-- `\k`, and whether a name between angle brackets follows. -/
  | reference (named : Bool)
  /-- A backslash that ends the source. -/
  | dangling
  | opening (named : Bool)
  /-- A parenthesis and a question mark that open nothing together. -/
  | badOpening
  | closing
  | quantifier
  /-- A class, by its signs. -/
  | bracket (signs : List Sign)
  /-- A class that is never closed. -/
  | unclosed
  deriving DecidableEq, Repr

/-- The lexeme that begins with a backslash. -/
def escapeLexeme : Text → Lexeme × Text
  | [] => (.dangling, [])
  | c :: t =>
    match CodeSet.ofEscape? c with
    | some s => (.sign (.set s), t)
    | none =>
      if c = 'b' ∨ c = 'B' then (.boundary, t)
      else if c = 'k' then
        match (Text.dropLead? ['<'] t).bind groupName? with
        | some (_, rest) => (.reference true, rest)
        | none => (.reference false, t)
      else if '1' ≤ c ∧ c ≤ '9' then (.decimal, t.dropWhile Char.isDigit)
      else (escapeCode c t).map (fun n => .sign (.code n)) id

/-- The lexeme that begins with an opening parenthesis. -/
def openingLexeme (t : Text) : Lexeme × Text :=
  match t with
  | '?' :: ':' :: rest => (.opening false, rest)
  | '?' :: '=' :: rest => (.opening false, rest)
  | '?' :: '!' :: rest => (.opening false, rest)
  | '?' :: '<' :: '=' :: rest => (.opening false, rest)
  | '?' :: '<' :: '!' :: rest => (.opening false, rest)
  | '?' :: '<' :: rest =>
    match groupName? rest with
    | some (_, rest) => (.opening true, rest)
    | none => (.badOpening, t)
  | '?' :: _ => (.badOpening, t)
  | _ => (.opening false, t)

/-- The lexeme that begins with an opening bracket; a caret at the front of a class is none of its signs. -/
def bracketLexeme (t : Text) : Lexeme × Text :=
  match classSigns (if t.head? = some '^' then t.tail else t) with
  | some (signs, rest) => (.bracket signs, rest)
  | none => (.unclosed, [])

/-- The first lexeme of a text that begins with `c`, and the text behind it. -/
def lexeme (c : Char) (t : Text) : Lexeme × Text :=
  match c with
  | '\\' => escapeLexeme t
  | '[' => bracketLexeme t
  | '(' => openingLexeme t
  | ')' => (.closing, t)
  | '*' => (.quantifier, (lazyMark t).2)
  | '+' => (.quantifier, (lazyMark t).2)
  | '?' => (.quantifier, (lazyMark t).2)
  | '\x7b' =>
    match braces? t with
    | some (_, rest) => (.quantifier, (lazyMark rest).2)
    | none => (.sign (.raw c), t)
  | c => (.sign (.raw c), t)

theorem escapeLexeme_suffix (t : Text) : (escapeLexeme t).2 <:+ t := by
  unfold escapeLexeme
  split
  · exact List.suffix_rfl
  · next c t =>
    have self : t <:+ c :: t := List.suffix_cons c t
    split
    · exact self
    · split
      · exact self
      · split
        · split
          · next found =>
            obtain ⟨u, lead, name⟩ := Option.bind_eq_some_iff.1 found
            rw [Text.dropLead?_eq_some.1 lead] at self ⊢
            exact ((groupName?_suffix name).trans (List.suffix_append _ u)).trans self
          · exact self
        · split
          · exact (List.dropWhile_suffix _).trans self
          · exact escapeCode_suffix c t

theorem openingLexeme_suffix (t : Text) : (openingLexeme t).2 <:+ t := by
  have two {a b : Char} {u : Text} : u <:+ a :: b :: u := (List.suffix_cons b u).trans (List.suffix_cons a _)
  unfold openingLexeme
  split
  · exact two
  · exact two
  · exact two
  · exact two.trans (List.suffix_cons _ _)
  · exact two.trans (List.suffix_cons _ _)
  · split
    · next found => exact (groupName?_suffix found).trans two
    · exact List.suffix_rfl
  · exact List.suffix_rfl
  · exact List.suffix_rfl

theorem bracketLexeme_suffix (t : Text) : (bracketLexeme t).2 <:+ t := by
  unfold bracketLexeme
  split
  · next found =>
    refine (classSigns_suffix found).trans ?_
    split
    · exact List.tail_suffix t
    · exact List.suffix_rfl
  · exact List.nil_suffix

theorem lexeme_suffix (c : Char) (t : Text) : (lexeme c t).2 <:+ t := by
  unfold lexeme
  split
  · exact escapeLexeme_suffix t
  · exact bracketLexeme_suffix t
  · exact openingLexeme_suffix t
  · exact List.suffix_rfl
  · exact lazyMark_suffix t
  · exact lazyMark_suffix t
  · exact lazyMark_suffix t
  · split
    · next found => exact (lazyMark_suffix _).trans (braces?_suffix found)
    · exact List.suffix_rfl
  · exact List.suffix_rfl

/-- The lexemes of a source. -/
def lexemes : Text → List Lexeme
  | [] => []
  | c :: t => (lexeme c t).1 :: lexemes (lexeme c t).2
termination_by t => t.length
decreasing_by have := (lexeme_suffix c t).length_le; simp; omega

theorem lexemes_nil : lexemes [] = [] := by rw [lexemes]

theorem lexemes_cons (c : Char) (t : Text) : lexemes (c :: t) = (lexeme c t).1 :: lexemes (lexeme c t).2 := by
  rw [lexemes]

/-- The lexeme opens a group. -/
def Lexeme.opens : Lexeme → Bool
  | .opening _ => true
  | _ => false

/-- The lexeme closes a group. -/
def Lexeme.closes : Lexeme → Bool
  | .closing => true
  | _ => false

/-- What a source can be refused for, told off its lexemes. -/
inductive Flaw (source : Text) : Prop
  | badOpening (found : .badOpening ∈ lexemes source)
  | unbalanced (found : ¬ Balanced Lexeme.opens Lexeme.closes (lexemes source))
  | unclosedClass (found : .unclosed ∈ lexemes source)
  | invertedRange (signs : List Sign) (found : .bracket signs ∈ lexemes source) (inverted : anyInverted signs = true)
  | repeatedQuantifier (found : [.quantifier, .quantifier] <:+: lexemes source)
  | danglingBackslash (found : .dangling ∈ lexemes source)
  | loneHalf (s : Sign) (half : s.isHalf = true) (found : .sign s ∈ lexemes source)
  | loneHalfInClass (s : Sign) (half : s.isHalf = true) (signs : List Sign) (listed : s ∈ signs)
      (found : .bracket signs ∈ lexemes source)
  | unnamedReference (found : .reference false ∈ lexemes source) (named : .opening true ∈ lexemes source)

end ProxyRouting.Regex
