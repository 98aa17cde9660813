import ProxyRouting.Proofs.Regex.EngineText
import ProxyRouting.Proofs.Regex.NamedGroups
import ProxyRouting.Proofs.Regex.Slashes
import ProxyRouting.Proofs.Text.Cut

/-!
Slashes in the engine's notation. One that was escaped is spelled by its code point, one that was not stands for
itself, so a source need not be spelled alike within a literal and without. It is but for the slashes
(`engineSource_literal`): no spelling of a slash can begin in one piece and end in the next.
-/
namespace ProxyRouting.Regex

/-- Every slash that is spelled by its code point is written as it stands. -/
def plainSlashes : Text → Text
  | '\\' :: 'x' :: '\x7b' :: '2' :: 'F' :: '\x7d' :: t => '/' :: plainSlashes t
  | c :: t => c :: plainSlashes t
  | [] => []

theorem renderCode_slash : renderCode '/' = "\\x\x7b2F\x7d".toList := by decide

theorem plainSlashes_slash (t : Text) : plainSlashes (renderCode '/' ++ t) = '/' :: plainSlashes t := rfl

theorem plainSlashes_cons {c : Char} {t : Text} (other : ∀ rest, c :: t ≠ renderCode '/' ++ rest) :
    plainSlashes (c :: t) = c :: plainSlashes t := by
  conv_lhs => unfold plainSlashes
  split
  · next rest same => exact absurd same (other rest)
  · next same => rw [(List.cons.inj same).1, (List.cons.inj same).2]
  · next same => cases same

/-- No slash is spelled partly in the text and partly in what follows. -/
def Whole (p : Text) : Prop := ∀ rest, plainSlashes (p ++ rest) = plainSlashes p ++ plainSlashes rest

theorem whole_nil : Whole [] := fun _ => rfl

theorem whole_append {p q : Text} (first : Whole p) (second : Whole q) : Whole (p ++ q) := by
  intro rest
  rw [List.append_assoc, first, second, first, List.append_assoc]

theorem whole_flatMap {α : Type} {f : α → Text} {as : List α} (each : ∀ a ∈ as, Whole (f a)) :
    Whole (as.flatMap f) := by
  induction as with
  | nil => exact whole_nil
  | cons a as ih => exact whole_append (each a (by simp)) (ih fun b member => each b (by simp [member]))

theorem plainSlashes_flatMap {α : Type} {f : α → Text} {as : List α} (each : ∀ a ∈ as, Whole (f a)) :
    plainSlashes (as.flatMap f) = as.flatMap fun a => plainSlashes (f a) := by
  induction as with
  | nil => rfl
  | cons a as ih =>
    rw [List.flatMap_cons, each a (by simp), ih fun b member => each b (by simp [member]), List.flatMap_cons]

theorem plainSlashes_run {run : Text} (clear : '\\' ∉ run) (rest : Text) :
    plainSlashes (run ++ rest) = run ++ plainSlashes rest := by
  induction run with
  | nil => rfl
  | cons c run ih =>
    obtain ⟨other, clear⟩ := not_or.1 (List.mem_cons.not.1 clear)
    have step : plainSlashes (c :: (run ++ rest)) = c :: plainSlashes (run ++ rest) :=
      plainSlashes_cons fun rest' same => other (List.cons.inj same).1.symm
    rw [List.cons_append, step, ih clear, List.cons_append]

theorem whole_run {run : Text} (clear : '\\' ∉ run) : Whole run := by
  intro rest
  have alone := plainSlashes_run clear []
  rw [List.append_nil] at alone
  rw [plainSlashes_run clear, alone, plainSlashes, List.append_nil]

/-- Only what begins with a backslash and an `x` may be a slash. -/
theorem whole_escape {d : Char} (other : d ≠ 'x') {run : Text} (clear : '\\' ∉ d :: run) : Whole ('\\' :: d :: run) := by
  have step (t : Text) : plainSlashes ('\\' :: d :: t) = '\\' :: plainSlashes (d :: t) := by
    refine plainSlashes_cons fun rest same => other ?_
    exact (List.cons.inj (List.cons.inj same).2).1
  intro rest
  rw [List.cons_append, List.cons_append, step, step, ← List.cons_append, whole_run clear, List.cons_append]

/-- The digits of a code end at the brace, so that they are those of a slash whatever follows or never. -/
theorem whole_code (c : Char) : Whole (renderCode c) := by
  have digits : ∀ d ∈ Text.hexUpper c.toNat, d ≠ '\\' ∧ d ≠ '\x7d' := by
    have all : ∀ n < 16, n.digitChar.toUpper ≠ '\\' ∧ n.digitChar.toUpper ≠ '\x7d' := by decide
    intro d member
    obtain ⟨n, small, rfl⟩ := Text.mem_hexUpper d member
    exact all n small
  intro rest
  by_cases slash : Text.hexUpper c.toNat = ['2', 'F']
  · have same : renderCode c = renderCode '/' := by
      rw [renderCode, slash]
      rfl
    rw [same]
    exact plainSlashes_slash rest
  · have brace : '\x7d' ∉ Text.hexUpper c.toNat := fun member => (digits _ member).2 rfl
    have clear : '\\' ∉ 'x' :: '\x7b' :: Text.hexUpper c.toNat ++ ['\x7d'] := by
      have backslash : '\\' ∉ Text.hexUpper c.toNat := fun member => (digits _ member).1 rfl
      simp [backslash]
    have step (t : Text) : plainSlashes (renderCode c ++ t) =
        '\\' :: plainSlashes ('x' :: '\x7b' :: Text.hexUpper c.toNat ++ ['\x7d'] ++ t) := by
      refine plainSlashes_cons fun rest same => slash ?_
      have whole : Text.hexUpper c.toNat ++ '\x7d' :: t = ['2', 'F'] ++ '\x7d' :: rest := by
        simpa [renderCode_slash] using same
      have cut := Text.cut?_single brace t
      rw [whole, Text.cut?_single (by decide) rest] at cut
      exact (Prod.mk.inj (Option.some.inj cut)).1.symm
    have alone := step []
    rw [List.append_nil, List.append_nil] at alone
    rw [step, alone, whole_run clear]
    rfl

theorem clear_of_quiet {run : Text} (quiet : Quiet run) : '\\' ∉ run := by
  intro member
  cases quiet _ member

theorem whole_range (r : CharRange) : Whole r.render := by
  unfold CharRange.render
  split
  · exact whole_code r.first
  · exact whole_append (whole_code r.first) (whole_append (p := ['-']) (whole_run (by decide)) (whole_code r.last))

theorem whole_bracket (ranges : List CharRange) : Whole ('[' :: ranges.flatMap CharRange.render ++ [']']) := by
  have opening : Whole ['['] := whole_run (by decide)
  have closing : Whole [']'] := whole_run (by decide)
  exact whole_append (whole_append opening (whole_flatMap fun r _ => whole_range r)) closing

theorem whole_emptyClass : Whole emptyClass := by
  have parts : emptyClass =
      "[^".toList ++ (renderCode (Char.ofNat 0) ++ (['-'] ++ (renderCode (Char.ofNat 0x10FFFF) ++ [']']))) := by decide
  rw [parts]
  refine whole_append (whole_run (by decide)) (whole_append (whole_code _) (whole_append ?_ (whole_append ?_ ?_)))
  · exact whole_run (by decide)
  · exact whole_code _
  · exact whole_run (by decide)

/-- What stands behind the backslash of a reference by number is a digit. -/
theorem whole_backref (n : Nat) : Whole (Token.render (.backref n)) := by
  have digits := Text.isDigit_of_mem_ofNat (n := n)
  have clear : '\\' ∉ Text.ofNat n := clear_of_quiet (quiet_of_isDigit digits)
  obtain ⟨d, run, spelled⟩ := List.exists_cons_of_ne_nil (Text.ofNat_ne_nil n)
  rw [spelled] at clear digits
  have other : d ≠ 'x' := by
    rintro rfl
    exact absurd (digits 'x' (by simp)) (by decide)
  have parts : Token.render (.backref n) = "(?:".toList ++ ('\\' :: Text.ofNat n ++ [')']) := rfl
  rw [parts, spelled]
  refine whole_append (whole_run (by decide)) (whole_escape other ?_)
  simpa using clear

theorem whole_namedBackref {name : Text} (isName : IsGroupName name) : Whole (Token.render (.namedBackref name)) := by
  have clear := clear_of_quiet (quiet_of_isGroupName isName)
  have parts : Token.render (.namedBackref name) = '\\' :: 'k' :: ('<' :: name ++ ['>']) := rfl
  rw [parts]
  refine whole_escape (by decide) ?_
  simpa using clear

theorem whole_named {name : Text} (isName : IsGroupName name) : Whole (Token.render (.opening (.named name))) := by
  have clear := clear_of_quiet (quiet_of_isGroupName isName)
  have parts : Token.render (.opening (.named name)) = "(?<".toList ++ name ++ ['>'] := rfl
  rw [parts]
  refine whole_run ?_
  simpa using clear

theorem whole_quantifier {q : Quantifier} (sound : q.Sound) (isLazy : Bool) :
    Whole (Token.render (.quantifier q isLazy)) := by
  have clear : '\\' ∉ q.render := by
    intro member
    rcases mem_quantifier sound _ member with digit | sign
    · cases digit
    · exact absurd sign (by decide)
  have parts : Token.render (.quantifier q isLazy) = q.render ++ if isLazy then ['?'] else [] := rfl
  rw [parts]
  refine whole_run ?_
  cases isLazy <;> simpa using clear

/-- No slash is spelled across the end of a token. -/
theorem whole_render {token : Token} (sound : token.Sound) : Whole token.render := by
  cases token with
  | start | finish | bar | closing => exact whole_run (by decide)
  | plain c =>
    refine whole_run fun member => sound ?_
    rw [← List.mem_singleton.1 member]
    decide
  | escaped c =>
    have known : ∀ e ∈ "\x7b\x7d]".toList, e ≠ 'x' ∧ e ≠ '\\' := Text.forall_mem_of_all (by decide)
    obtain ⟨other, clear⟩ := known c sound
    exact whole_escape other (by simp [clear.symm])
  | code c => exact whole_code c
  | oneOf ranges =>
    cases ranges with
    | nil => exact whole_emptyClass
    | cons r ranges => exact whole_bracket (r :: ranges)
  | boundary inverted =>
    cases inverted with
    | false => exact whole_run (by decide)
    | true => exact whole_run (by decide)
  | backref n => exact whole_backref n
  | namedBackref name => exact whole_namedBackref sound
  | opening group =>
    cases group with
    | named name => exact whole_named sound
    | _ => exact whole_run (by decide)
  | quantifier q isLazy => exact whole_quantifier sound isLazy

/-- Settled or not, a token is spelled the same but for a slash. -/
theorem plainSlashes_settled (token : Token) : plainSlashes token.settled.render = plainSlashes token.render := by
  unfold Token.settled
  split
  · rfl
  · rfl

theorem plainSlashes_render {tokens tokens' : List Token} (sound : ∀ token ∈ tokens, token.Sound)
    (sound' : ∀ token ∈ tokens', token.Sound) (same : tokens'.map Token.settled = tokens.map Token.settled) :
    plainSlashes (render tokens') = plainSlashes (render tokens) := by
  have settled {tokens : List Token} (sound : ∀ token ∈ tokens, token.Sound) :
      plainSlashes (render tokens) = (tokens.map Token.settled).flatMap fun token => plainSlashes token.render := by
    rw [render, plainSlashes_flatMap fun token member => whole_render (sound token member), List.flatMap_map]
    exact List.flatMap_congr fun token _ => (plainSlashes_settled token).symm
  rw [settled sound, settled sound', same]

/-- Within a literal a source is refused where it is refused by itself, and else comes out the same but for the
    spelling of slashes. -/
theorem engineSource_literal (source : Text) :
    (∃ out out', engineSource source = .ok out ∧ engineSource (unescapeSlashes (escapeSlashes source)) = .ok out' ∧
      plainSlashes out' = plainSlashes out) ∨
    ∃ f g, engineSource source = .error f ∧ engineSource (unescapeSlashes (escapeSlashes source)) = .error g := by
  rw [unescape_escapeSlashes]
  have captures : (Source.of (unescapeSlashes source)).captures = (Source.of source).captures := scan_unescape false source
  rcases tokensFrom_unescape captures 0 source with ⟨tokens, tokens', read, read', same⟩ | ⟨f, g, refused, refused'⟩
  · refine .inl ⟨render tokens, render tokens', ?_, ?_, ?_⟩
    · simp [engineSource, tokenize, read, Except.map]
    · simp [engineSource, tokenize, read', Except.map]
    · exact plainSlashes_render (confined_tokensFrom read).1.sound (confined_tokensFrom read').1.sound same
  · exact .inr ⟨f, g, by simp [engineSource, tokenize, refused, Except.map],
      by simp [engineSource, tokenize, refused', Except.map]⟩

end ProxyRouting.Regex
