import ProxyRouting.Proofs.Regex.CodeSet
import ProxyRouting.Proofs.Regex.Nesting
import ProxyRouting.Proofs.Regex.Reading
import ProxyRouting.Proofs.Text.Digits

/-!
What the engine is handed. Its notation has flags, atomic groups, possessive quantifiers, classes of classes and
escapes that scripts know nothing of; none of them can come out of a source, whatever is in it. A text that is handed
over is made of the few pieces listed here, one for each token of the source, with no quantifier upon a quantifier, no
question mark upon a parenthesis, and with parentheses that pair up (`engineSource_written`).
-/
namespace ProxyRouting.Regex

/-- How often something is repeated. -/
inductive RepeatMark : Text → Prop
  | sign (c : Char) (known : c ∈ "*+?".toList) : RepeatMark [c]
  | exactly (n : Text) (count : IsCount n) : RepeatMark ('\x7b' :: n ++ ['\x7d'])
  | atLeast (n : Text) (count : IsCount n) : RepeatMark ('\x7b' :: n ++ [',', '\x7d'])
  | between (n m : Text) (least : IsCount n) (most : IsCount m) : RepeatMark ('\x7b' :: n ++ ',' :: m ++ ['\x7d'])

/-- A quantifier, greedy or lazy. -/
def Repetition (p : Text) : Prop := RepeatMark p ∨ ∃ mark, RepeatMark mark ∧ p = mark ++ ['?']

/-- The pieces of a text in the engine's notation. -/
inductive EnginePiece : Text → Prop
  | sign (c : Char) (known : c ∈ "^$|".toList) : EnginePiece [c]
  | raw (c : Char) (plain : c ∉ "\\[]()\x7b\x7d.*+?".toList) : EnginePiece [c]
  | escaped (c : Char) (known : c ∈ "\x7b\x7d]".toList) : EnginePiece ['\\', c]
  | code (c : Char) : EnginePiece (renderCode c)
  | bracket (ranges : List CharRange) (some : ranges ≠ []) (ordered : Ordered ranges) :
      EnginePiece ('[' :: ranges.flatMap CharRange.render ++ [']'])
  | emptyBracket : EnginePiece emptyClass
  | boundary : EnginePiece boundaryText
  | noBoundary : EnginePiece noBoundaryText
  | backref (n : Nat) (positive : 1 ≤ n) : EnginePiece ("(?:\\".toList ++ Text.ofNat n ++ [')'])
  | namedBackref (name : Text) (isName : IsGroupName name) : EnginePiece ("\\k<".toList ++ name ++ ['>'])
  | opening (lead : String) (known : lead ∈ ["(", "(?:", "(?=", "(?!", "(?<=", "(?<!"]) : EnginePiece lead.toList
  | namedOpening (name : Text) (isName : IsGroupName name) : EnginePiece ("(?<".toList ++ name ++ ['>'])
  | closing : EnginePiece [')']
  | repetition (p : Text) (repeats : Repetition p) : EnginePiece p

/-- Two pieces that stay two next to each other: a quantifier upon a quantifier would be one that is lazy or
    possessive, and a question mark behind a parenthesis would say what the group is for. -/
def Apart (p q : Text) : Prop := ¬ (Repetition p ∧ Repetition q) ∧ ¬ (p = ['('] ∧ q.head? = some '?')

/-- What holds of every token that is read. -/
def Token.Sound : Token → Prop
  | .plain c => c ∉ "\\[]()\x7b\x7d.*+?".toList
  | .escaped c => c ∈ "\x7b\x7d]".toList
  | .oneOf ranges => Ordered ranges
  | .backref n => 1 ≤ n
  | .namedBackref name => IsGroupName name
  | .opening (.named name) => IsGroupName name
  | .quantifier q _ => q.Sound
  | _ => True

theorem repeatMark_render {q : Quantifier} (sound : q.Sound) : RepeatMark q.render := by
  cases q with
  | star => exact .sign '*' (by decide)
  | plus => exact .sign '+' (by decide)
  | optional => exact .sign '?' (by decide)
  | exactly n => exact .exactly n sound
  | atLeast n => exact .atLeast n sound
  | between n m => exact .between n m sound.1 sound.2

/-- A token that holds what it should is spelled as a piece. -/
theorem enginePiece_render {token : Token} (sound : token.Sound) : EnginePiece token.render := by
  cases token with
  | start => exact .sign '^' (by decide)
  | finish => exact .sign '$' (by decide)
  | bar => exact .sign '|' (by decide)
  | plain c => exact .raw c sound
  | escaped c => exact .escaped c sound
  | code c => exact .code c
  | oneOf ranges =>
    cases ranges with
    | nil => exact .emptyBracket
    | cons r ranges => exact .bracket (r :: ranges) (by simp) sound
  | boundary inverted =>
    cases inverted with
    | false => exact .boundary
    | true => exact .noBoundary
  | backref n => exact .backref n sound
  | namedBackref name => exact .namedBackref name sound
  | opening group =>
    cases group with
    | capture => exact .opening "(" (by decide)
    | plain => exact .opening "(?:" (by decide)
    | ahead => exact .opening "(?=" (by decide)
    | notAhead => exact .opening "(?!" (by decide)
    | behind => exact .opening "(?<=" (by decide)
    | notBehind => exact .opening "(?<!" (by decide)
    | named name => exact .namedOpening name sound
  | closing => exact .closing
  | quantifier q isLazy =>
    have mark := repeatMark_render sound
    cases isLazy with
    | false =>
      have greedy : Token.render (.quantifier q false) = q.render := List.append_nil _
      rw [greedy]
      exact .repetition _ (.inl mark)
    | true => exact .repetition _ (.inr ⟨q.render, mark, rfl⟩)

theorem render_boundary (inverted : Bool) : ∃ t, Token.render (.boundary inverted) = '(' :: '?' :: t := by
  cases inverted <;> exact ⟨_, rfl⟩

/-- Only quantifiers are spelled from where a quantifier begins. -/
theorem quantifier_of_head {token : Token} (sound : token.Sound) {c : Char} (first : token.render.head? = some c)
    (known : c ∈ "*+?\x7b".toList) : ∃ q isLazy, token = .quantifier q isLazy := by
  cases token with
  | quantifier q isLazy => exact ⟨q, isLazy, rfl⟩
  | plain d =>
    have same : d = c := Option.some.inj first
    have all : ∀ e ∈ "*+?\x7b".toList, e ∈ "\\[]()\x7b\x7d.*+?".toList := Text.forall_mem_of_all (by decide)
    exact absurd (same ▸ all c known) sound
  | oneOf ranges => cases ranges <;> cases first <;> exact absurd known (by decide)
  | boundary inverted =>
    obtain ⟨t, spelled⟩ := render_boundary inverted
    rw [spelled] at first
    cases first
    exact absurd known (by decide)
  | opening group => cases group <;> cases first <;> exact absurd known (by decide)
  | _ => cases first; exact absurd known (by decide)

theorem quantifier_of_repetition {token : Token} (sound : token.Sound) (repeats : Repetition token.render) :
    ∃ q isLazy, token = .quantifier q isLazy := by
  have mark {p : Text} (mark : RepeatMark p) : ∃ c t, p = c :: t ∧ c ∈ "*+?\x7b".toList := by
    cases mark with
    | sign c known => exact ⟨c, [], rfl, List.mem_append_left ['\x7b'] known⟩
    | _ => exact ⟨'\x7b', _, rfl, by decide⟩
  rcases repeats with greedy | ⟨p, mark', same⟩
  · obtain ⟨c, t, whole, known⟩ := mark greedy
    exact quantifier_of_head sound (by rw [whole]; rfl) known
  · obtain ⟨c, t, whole, known⟩ := mark mark'
    exact quantifier_of_head sound (by rw [same, whole]; rfl) known

/-- Only the opening of a group that is counted is spelled with a parenthesis and nothing else. -/
theorem capture_of_render {token : Token} (sound : token.Sound) (single : token.render = ['(']) :
    token = .opening .capture := by
  cases token with
  | quantifier q isLazy => cases q <;> cases single
  | plain c =>
    have same : c = '(' := (List.cons.inj single).1
    have listed : '(' ∈ "\\[]()\x7b\x7d.*+?".toList := by decide
    exact absurd (same ▸ listed) sound
  | oneOf ranges => cases ranges <;> cases single
  | boundary inverted =>
    obtain ⟨t, spelled⟩ := render_boundary inverted
    rw [spelled] at single
    cases single
  | opening group =>
    cases group with
    | capture => rfl
    | _ => cases single
  | _ => cases single

/-! ## Parentheses -/

/-- The parentheses of a text pair up, `depth` of them being open before it. -/
abbrev ParensClose (depth : Nat) (t : Text) : Prop := Closes (· == '(') (· == ')') depth t

/-- There are no parentheses in the text. -/
def NoParens (t : Text) : Prop := ∀ c ∈ t, c ≠ '(' ∧ c ≠ ')'

instance : DecidablePred NoParens := List.decidableBAll fun c => c ≠ '(' ∧ c ≠ ')'

theorem noParens_append {t u : Text} (first : NoParens t) (second : NoParens u) : NoParens (t ++ u) := by
  intro c member
  rcases List.mem_append.1 member with inFirst | inSecond
  · exact first c inFirst
  · exact second c inSecond

theorem noParens_flatMap {α : Type} {f : α → Text} {as : List α} (each : ∀ a ∈ as, NoParens (f a)) :
    NoParens (as.flatMap f) := by
  intro c member
  obtain ⟨a, inside, spelled⟩ := List.mem_flatMap.1 member
  exact each a inside c spelled

theorem noParens_of_isDigit {t : Text} (digits : ∀ c ∈ t, c.isDigit = true) : NoParens t := by
  intro c member
  constructor <;> rintro rfl <;> exact absurd (digits _ member) (by decide)

theorem noParens_of_isGroupName {name : Text} (isName : IsGroupName name) : NoParens name := by
  obtain ⟨first, t, rfl, starts, others⟩ := isName
  have part {c : Char} (part : (isNameStart c || c.isDigit) = true) : c ≠ '(' ∧ c ≠ ')' := by
    constructor <;> rintro rfl <;> exact absurd part (by decide)
  intro c member
  rcases List.mem_cons.1 member with rfl | later
  · exact part (by simp [starts])
  · exact part (others c later)

/-- A name between angle brackets, behind what says of what group it is the name. -/
theorem noParens_angled {t name : Text} (quiet : NoParens t) (isName : IsGroupName name) :
    NoParens (t ++ name ++ ['>']) :=
  noParens_append (noParens_append quiet (noParens_of_isGroupName isName)) (by decide)

theorem noParens_renderCode (c : Char) : NoParens (renderCode c) := by
  have digits : NoParens (Text.hexUpper c.toNat) := by
    have all : ∀ n < 16, n.digitChar.toUpper ≠ '(' ∧ n.digitChar.toUpper ≠ ')' := by decide
    intro d member
    obtain ⟨n, small, rfl⟩ := Text.mem_hexUpper d member
    exact all n small
  exact noParens_append (noParens_append (t := ['\\', 'x', '\x7b']) (by decide) digits) (by decide)

theorem noParens_range (r : CharRange) : NoParens r.render := by
  unfold CharRange.render
  split
  · exact noParens_renderCode r.first
  · exact noParens_append (noParens_renderCode r.first)
      (noParens_append (t := ['-']) (by decide) (noParens_renderCode r.last))

theorem noParens_bracket (ranges : List CharRange) : NoParens ('[' :: ranges.flatMap CharRange.render ++ [']']) :=
  noParens_append (noParens_append (t := ['[']) (by decide) (noParens_flatMap fun r _ => noParens_range r)) (by decide)

theorem noParens_quantifier {q : Quantifier} (sound : q.Sound) : NoParens q.render := by
  have signs : NoParens quantifierSigns := by decide
  intro c member
  rcases mem_quantifier sound c member with digit | sign
  · exact noParens_of_isDigit (t := [c]) (by simpa using digit) c (by simp)
  · exact signs c sign

theorem parensClose_quiet {t rest : Text} {depth : Nat} (quiet : NoParens t) (closed : ParensClose depth rest) :
    ParensClose depth (t ++ rest) := by
  refine closes_append (balanced_of_neither fun c member => ?_) closed
  obtain ⟨notOpen, notClose⟩ := quiet c member
  simp [notOpen, notClose]

theorem parensClose_open {t rest : Text} {depth : Nat} (quiet : NoParens t) (closed : ParensClose (depth + 1) rest) :
    ParensClose depth ('(' :: t ++ rest) := by
  rw [List.cons_append]
  exact (closes_cons (by simp)).2 (parensClose_quiet quiet closed)

theorem parensClose_close {rest : Text} {depth : Nat} (closed : ParensClose depth rest) :
    ParensClose (depth + 1) (')' :: rest) :=
  (closes_cons (by simp)).2 closed

/-- A reference to a group stands in a group of its own. -/
theorem parensClose_backref (n : Nat) {rest : Text} {depth : Nat} (closed : ParensClose depth rest) :
    ParensClose depth (Token.render (.backref n) ++ rest) := by
  have quiet : NoParens ("?:\\".toList ++ Text.ofNat n) :=
    noParens_append (by decide) (noParens_of_isDigit Text.isDigit_of_mem_ofNat)
  have parts : Token.render (.backref n) = '(' :: ("?:\\".toList ++ Text.ofNat n) ++ [')'] := rfl
  rw [parts, List.append_assoc]
  exact parensClose_open quiet (parensClose_close closed)

/-- The parentheses of a token's spelling are those that it opens or closes, and some that pair up. -/
theorem parensClose_render {token : Token} (sound : token.Sound) {depth inner : Nat}
    (nested : token.depthAfter? depth = some inner) {rest : Text} (closed : ParensClose inner rest) :
    ParensClose depth (token.render ++ rest) := by
  cases token with
  | closing =>
    cases depth with
    | zero => cases nested
    | succ depth => cases nested; exact parensClose_close closed
  | opening group =>
    cases nested
    cases group with
    | named name => exact parensClose_open (noParens_angled (t := "?<".toList) (by decide) sound) closed
    | _ => exact parensClose_open (by decide) closed
  | plain c =>
    cases nested
    refine parensClose_quiet ?_ closed
    intro d member
    have parens : '(' ∈ "\\[]()\x7b\x7d.*+?".toList ∧ ')' ∈ "\\[]()\x7b\x7d.*+?".toList := by decide
    rw [List.mem_singleton.1 member]
    exact ⟨fun same => sound (same ▸ parens.1), fun same => sound (same ▸ parens.2)⟩
  | escaped c =>
    cases nested
    have known : NoParens "\x7b\x7d]".toList := by decide
    refine parensClose_quiet (noParens_append (t := ['\\']) (by decide) fun d member => ?_) closed
    rw [List.mem_singleton.1 member]
    exact known c sound
  | oneOf ranges =>
    cases nested
    cases ranges with
    | nil => exact parensClose_quiet (t := emptyClass) (by decide) closed
    | cons r ranges => exact parensClose_quiet (noParens_bracket (r :: ranges)) closed
  | code c =>
    cases nested
    exact parensClose_quiet (noParens_renderCode c) closed
  | boundary inverted =>
    cases nested
    cases inverted with
    | false => exact closes_append (by decide) closed
    | true => exact closes_append (by decide) closed
  | backref n =>
    cases nested
    exact parensClose_backref n closed
  | namedBackref name =>
    cases nested
    exact parensClose_quiet (noParens_angled (t := "\\k<".toList) (by decide) sound) closed
  | quantifier q isLazy =>
    cases nested
    have quiet : NoParens (q.render ++ if isLazy then ['?'] else []) := by
      refine noParens_append (noParens_quantifier sound) ?_
      cases isLazy <;> decide
    exact parensClose_quiet quiet closed
  | start | finish | bar =>
    cases nested
    exact parensClose_quiet (by decide) closed

/-! ## Reading -/

theorem positive_backref? {captures : Captures} {c : Char} {t rest : Text} {n : Nat}
    (read : backref? captures c t = some (n, rest)) : 1 ≤ n := by
  unfold backref? at read
  simp only at read
  split at read
  · next digit =>
    split at read
    · cases read
      have low : 49 ≤ c.toNat := UInt32.le_iff_toNat_le.1 (Char.le_def.1 digit.1)
      have first : 1 ≤ 10 * 0 + (c.toNat - '0'.toNat) := by
        show 1 ≤ 10 * 0 + (c.toNat - 48)
        omega
      rw [Text.digitsValue, Nat.ofDigitChars_cons, Nat.ofDigitChars_eq_ofDigitChars_zero]
      exact Nat.le_trans (Nat.mul_pos (Nat.pow_pos (by decide)) first) (Nat.le_add_right _ _)
    · cases read
  · cases read

/-- A quantifier is read where one begins, and none begins behind it. -/
theorem readQuantifier_apart {s : Source} {q : Quantifier} {t rest : Text} {token : Token}
    (read : readQuantifier s q t = .ok (token, rest)) :
    (∃ isLazy, token = .quantifier q isLazy) ∧ startsQuantifier rest = false := by
  simp only [readQuantifier] at read
  split at read
  · cases read
  · next apart =>
    cases read
    exact ⟨⟨_, rfl⟩, by simpa using apart⟩

/-- What an escape is read as, `c` being what follows the backslash. -/
inductive EscapeRead (s : Source) (offset : Nat) (c : Char) (t : Text) : Token → Text → Prop
  | set (set : CodeSet) (found : CodeSet.ofEscape? c = some set) : EscapeRead s offset c t (.oneOf set.scalars) t
  | boundary (inverted : Bool) (letter : c = if inverted then 'B' else 'b') :
      EscapeRead s offset c t (.boundary inverted) t
  | named (name u rest : Text) (letter : c = 'k') (angle : t = '<' :: u) (found : groupName? u = some (name, rest)) :
      EscapeRead s offset c t (.namedBackref name) rest
  | group (n : Nat) (rest : Text) (found : backref? s.captures c t = some (n, rest)) :
      EscapeRead s offset c t (.backref n) rest
  | code (d : Char) (rest : Text) (found : charEscape offset c t = .ok (d, rest)) :
      EscapeRead s offset c t (.code d) rest

theorem escapeRead_of_readEscape {s : Source} {offset : Nat} {t rest : Text} {token : Token}
    (read : readEscape s offset t = .ok (token, rest)) : ∃ c u, t = c :: u ∧ EscapeRead s offset c u token rest := by
  unfold readEscape at read
  split at read
  · cases read
  · next c u =>
    refine ⟨c, u, rfl, ?_⟩
    split at read
    · next set found => cases read; exact .set set found
    · split at read
      · next letter => cases read; exact .boundary false letter
      · split at read
        · next letter => cases read; exact .boundary true letter
        · split at read
          · next letter =>
            split at read
            · split at read
              · next found => cases read; exact .named _ _ _ letter.1 rfl found
              · cases read
            · cases read
          · split at read
            · next found => cases read; exact .group _ _ found
            · split at read
              · next found => cases read; exact .code _ _ found
              · cases read

theorem sound_readEscape {s : Source} {offset : Nat} {t rest : Text} {token : Token}
    (read : readEscape s offset t = .ok (token, rest)) :
    token.Sound ∧ (∀ q isLazy, token ≠ .quantifier q isLazy) ∧ token ≠ .opening .capture := by
  obtain ⟨c, u, rfl, escape⟩ := escapeRead_of_readEscape read
  cases escape with
  | set set found => exact ⟨ordered_scalars (CodeSet.ascending_ofEscape? found), by simp⟩
  | boundary inverted letter => exact ⟨trivial, by simp⟩
  | named name u rest letter angle found => exact ⟨(groupName?_eq found).2, by simp⟩
  | group n rest found => exact ⟨positive_backref? found, by simp⟩
  | code d rest found => exact ⟨trivial, by simp⟩

/-- A group is counted when no question mark follows its parenthesis. -/
theorem sound_readGroup {offset : Nat} {t rest : Text} {token : Token}
    (read : readGroup offset t = .ok (token, rest)) :
    token.Sound ∧ ∃ group, token = .opening group ∧ (group = .capture → rest.head? ≠ some '?') := by
  unfold readGroup at read
  split at read
  · cases read; exact ⟨trivial, _, rfl, by simp⟩
  · cases read; exact ⟨trivial, _, rfl, by simp⟩
  · cases read; exact ⟨trivial, _, rfl, by simp⟩
  · cases read; exact ⟨trivial, _, rfl, by simp⟩
  · cases read; exact ⟨trivial, _, rfl, by simp⟩
  · split at read
    · next name => cases read; exact ⟨(groupName?_eq name).2, _, rfl, by simp⟩
    · cases read
  · cases read
  · next plain =>
    cases read
    refine ⟨trivial, _, rfl, fun _ mark => ?_⟩
    obtain ⟨u, same⟩ := List.head?_eq_some_iff.1 mark
    exact plain u same

/-- What a token needs where it is read at `c` and `t`, with `rest` behind it: quantifiers are read only where one
    begins, as their spelling does, and none follows; a group is counted only where no question mark follows. -/
structure Token.Placed (c : Char) (t rest : Text) (token : Token) : Prop where
  sound : token.Sound
  quantifies : (∃ q isLazy, token = .quantifier q isLazy) →
    startsQuantifier (c :: t) = true ∧ token.render.head? = some c ∧ startsQuantifier rest = false
  counted : token = .opening .capture → rest.head? ≠ some '?'

theorem placed_readQuantifier {s : Source} {q : Quantifier} {c : Char} {t u rest : Text} {token : Token}
    (sound : q.Sound) (begins : startsQuantifier (c :: t) = true) (first : q.render.head? = some c)
    (read : readQuantifier s q u = .ok (token, rest)) : token.Placed c t rest := by
  obtain ⟨⟨isLazy, rfl⟩, apart⟩ := readQuantifier_apart read
  have spelled : (Token.quantifier q isLazy).render.head? = some c := by
    rw [Token.render, List.head?_append, first]
    rfl
  exact ⟨sound, fun _ => ⟨begins, spelled, apart⟩, by simp⟩

theorem placed_readToken {s : Source} {c : Char} {t rest : Text} {token : Token}
    (read : readToken s c t = .ok (token, rest)) : token.Placed c t rest := by
  unfold readToken at read
  simp only at read
  split at read
  · obtain ⟨sound, other, group⟩ := sound_readEscape read
    exact ⟨sound, fun ⟨q, isLazy, same⟩ => absurd same (other q isLazy), fun same => absurd same group⟩
  · split at read
    · next found => cases read; exact ⟨ordered_classCodes found, by simp, by simp⟩
    · cases read
  · obtain ⟨sound, group, rfl, counted⟩ := sound_readGroup read
    exact ⟨sound, by simp, fun same => counted (Token.opening.inj same)⟩
  · cases read; exact ⟨trivial, by simp, by simp⟩
  · cases read; exact ⟨ordered_anyChar, by simp, by simp⟩
  · exact placed_readQuantifier (q := .star) trivial rfl rfl read
  · exact placed_readQuantifier (q := .plus) trivial rfl rfl read
  · exact placed_readQuantifier (q := .optional) trivial rfl rfl read
  · split at read
    · next q behind found =>
      obtain ⟨spelled, sound⟩ := braces?_eq found
      have begins : startsQuantifier ('\x7b' :: t) = true := by simp [startsQuantifier, found]
      have first : q.render.head? = some '\x7b' := by cases q <;> cases spelled <;> rfl
      exact placed_readQuantifier sound begins first read
    · cases read; exact ⟨by simp [Token.Sound], by simp, by simp⟩
  · cases read; exact ⟨by simp [Token.Sound], by simp, by simp⟩
  · cases read; exact ⟨by simp [Token.Sound], by simp, by simp⟩
  · cases read; exact ⟨trivial, by simp, by simp⟩
  · cases read; exact ⟨trivial, by simp, by simp⟩
  · cases read; exact ⟨trivial, by simp, by simp⟩
  · cases read
    refine ⟨?_, by simp, by simp⟩
    simp_all [Token.Sound]

/-- Tokens that hold what they should, whose pieces stay apart, and whose spelling closes all parentheses, `depth` of
    which are open before it. -/
structure Confined (depth : Nat) (tokens : List Token) : Prop where
  sound : ∀ token ∈ tokens, token.Sound
  apart : (tokens.map Token.render).IsChain Apart
  nested : ParensClose depth (render tokens)

/-- The pieces of a text stay apart because the first of them shows what the text begins with. -/
theorem confined_tokensFrom {s : Source} {depth : Nat} {t : Text} {tokens : List Token}
    (read : tokensFrom s depth t = .ok tokens) : Confined depth tokens ∧
      ∀ p ∈ (tokens.map Token.render).head?,
        (startsQuantifier t = false → ¬ Repetition p) ∧ (t.head? ≠ some '?' → p.head? ≠ some '?') := by
  refine tokensFrom_induction ?_ ?_ read
  · exact ⟨⟨by simp, .nil, closes_nil.2 rfl⟩, by simp⟩
  · rintro depth inner c t rest token others first nested ⟨confined, calm⟩
    obtain ⟨sound, quantifies, counted⟩ := placed_readToken first
    have repeats (repeats : Repetition token.render) :
        startsQuantifier (c :: t) = true ∧ startsQuantifier rest = false := by
      obtain ⟨begins, -, apart⟩ := quantifies (quantifier_of_repetition sound repeats)
      exact ⟨begins, apart⟩
    refine ⟨⟨?_, ?_, ?_⟩, ?_⟩
    · intro x member
      rcases List.mem_cons.1 member with rfl | behind
      · exact sound
      · exact confined.sound x behind
    · rw [List.map_cons, List.isChain_cons]
      refine ⟨fun p next => ⟨?_, ?_⟩, confined.apart⟩
      · rintro ⟨here, there⟩
        exact (calm p next).1 (repeats here).2 there
      · rintro ⟨single, mark⟩
        exact (calm p next).2 (counted (capture_of_render sound single)) mark
    · rw [render, List.flatMap_cons]
      exact parensClose_render sound nested confined.nested
    · rintro p ⟨⟩
      refine ⟨fun quiet here => ?_, fun other mark => ?_⟩
      · rw [(repeats here).1] at quiet
        cases quiet
      · obtain ⟨-, spelled, -⟩ := quantifies (quantifier_of_head sound mark (by decide))
        exact other (spelled.symm.trans mark)

/-- A source that is accepted comes out as pieces of the engine's notation, the spellings of its tokens, with no
    quantifier upon a quantifier, no question mark upon a parenthesis, and with parentheses that pair up. -/
theorem engineSource_written {source out : Text} (done : engineSource source = .ok out) :
    ∃ tokens pieces, tokenize source = .ok tokens ∧ pieces = tokens.map Token.render ∧ out = pieces.flatten ∧
      (∀ p ∈ pieces, EnginePiece p) ∧ pieces.IsChain Apart ∧ Balanced (· == '(') (· == ')') out := by
  unfold engineSource at done
  cases read : tokenize source with
  | error fault =>
    rw [read] at done
    cases done
  | ok tokens =>
    rw [read] at done
    cases done
    have confined := (confined_tokensFrom read).1
    refine ⟨tokens, _, rfl, rfl, List.flatMap_def .., ?_, confined.apart, confined.nested⟩
    intro p member
    obtain ⟨token, listed, rfl⟩ := List.mem_map.1 member
    exact enginePiece_render (confined.sound token listed)

/-- A class that lists its characters out of order, an escape and a lazy quantifier. -/
theorem engineSource_written_class :
    engineSource "(?:[db-da]|\\.)+?".toList = .ok "(?:[\\x\x7b61\x7d-\\x\x7b64\x7d]|\\x\x7b2E\x7d)+?".toList ∧
    ∃ tokens pieces, tokenize "(?:[db-da]|\\.)+?".toList = .ok tokens ∧ pieces = tokens.map Token.render ∧
      "(?:[\\x\x7b61\x7d-\\x\x7b64\x7d]|\\x\x7b2E\x7d)+?".toList = pieces.flatten ∧
      (∀ p ∈ pieces, EnginePiece p) ∧ pieces.IsChain Apart ∧
      Balanced (· == '(') (· == ')') "(?:[\\x\x7b61\x7d-\\x\x7b64\x7d]|\\x\x7b2E\x7d)+?".toList := by
  have done : engineSource "(?:[db-da]|\\.)+?".toList =
      .ok "(?:[\\x\x7b61\x7d-\\x\x7b64\x7d]|\\x\x7b2E\x7d)+?".toList := by
    simp [engineSource, tokenize, tokensFrom_cons, tokensFrom, readToken, readGroup, readClass, readItems_cons,
      readItems, readItem, readAtom, dashItem, readEscape, readQuantifier, lazyMark, startsQuantifier,
      Token.depthAfter?, CodeSet.ofEscape?, charEscape, controlLetter?, octalValue?, backref?]
    rfl
  exact ⟨done, engineSource_written done⟩

end ProxyRouting.Regex
