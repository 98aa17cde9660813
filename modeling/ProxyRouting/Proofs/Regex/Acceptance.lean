import ProxyRouting.Proofs.Regex.NamedGroups
import ProxyRouting.Proofs.Regex.Signs

/-!
Which sources are refused: just those with a flaw (`engineSource_error_iff`). Lexeme by lexeme, the reader goes on
where the cut does as long as all is well, and stops where it is not; what it passes over differs from what is cut
only in characters that stand for themselves.
-/
namespace ProxyRouting.Regex

/-- Of a number behind a backslash an escape for one character leaves digits. -/
theorem escapeCode_decimal {c : Char} (digit : '1' ≤ c ∧ c ≤ '9') (t : Text) :
    CodeSet.isSurrogate (escapeCode c t).1 = false ∧
      ∃ run, (escapeCode c t).2 = run ++ t.dropWhile Char.isDigit ∧ Quiet run := by
  have low : 49 ≤ c.toNat := UInt32.le_iff_toNat_le.1 (Char.le_def.1 digit.1)
  have high : c.toNat ≤ 57 := UInt32.le_iff_toNat_le.1 (Char.le_def.1 digit.2)
  have other {d : Char} (beyond : 57 < d.toNat) : c ≠ d := by
    rintro rfl
    omega
  have noControl : controlLetter? c = none := by
    unfold controlLetter?
    split <;> first | rfl | exact absurd high (by decide)
  unfold escapeCode
  rw [lookup_controlCodes, noControl, Option.map_none]
  cases octal : octalValue? c with
  | some value =>
    exact ⟨isSurrogate_of_lt (Nat.lt_trans (octalTail_small octal t) (by decide)), octalTail_digits _ _ t⟩
  | none =>
    simp only [other (d := 'x') (by decide), other (d := 'u') (by decide), other (d := 'c') (by decide), ↓reduceIte]
    refine ⟨isSurrogate_toNat c, t.takeWhile Char.isDigit, List.takeWhile_append_dropWhile.symm, ?_⟩
    exact quiet_of_isDigit fun c member => List.mem_takeWhile_imp member

/-- Characters that stand for themselves never stop the reader. -/
theorem tokensFrom_run (s : Source) (depth : Nat) {run : Text} (quiet : Quiet run) (t : Text) :
    (∃ tokens, tokensFrom s depth (run ++ t) = .ok tokens) ↔ ∃ tokens, tokensFrom s depth t = .ok tokens := by
  induction run with
  | nil => rfl
  | cons c run ih =>
    have plain := readToken_plain (quiet c (by simp)) s (run ++ t)
    rw [← ih fun d member => quiet d (List.mem_cons_of_mem c member), List.cons_append, tokensFrom_of_read plain rfl]
    cases tokensFrom s depth (run ++ t) <;> simp [Except.map]

/-- Nothing is wrong with the lexeme itself, in a source with or without a named group. -/
def Lexeme.Fine (named : Bool) : Lexeme → Prop
  | .sign s => s.isHalf = false
  | .reference complete => named = true → complete = true
  | .bracket signs => SignsFine signs
  | .dangling => False
  | .badOpening => False
  | .unclosed => False
  | _ => True

/-- How deep groups are nested behind a lexeme; none is below the ground. -/
def Lexeme.depthAfter? (depth : Nat) : Lexeme → Option Nat
  | .opening _ => some (depth + 1)
  | .closing => if depth = 0 then none else some (depth - 1)
  | _ => some depth

/-- The reader takes the lexeme for a token that nests alike and leaves what the cut does, but for characters
    that stand for themselves; or the lexeme is not fine, and the reader stops. -/
def Follows (named : Bool) (found : Lexeme × Text) (result : Except Fault (Token × Text)) : Prop :=
  (found.1.Fine named ∧ ∃ token run, result = .ok (token, run ++ found.2) ∧ Quiet run ∧
      ∀ depth, token.depthAfter? depth = found.1.depthAfter? depth) ∨
    (¬ found.1.Fine named ∧ ∃ fault, result = .error fault)

theorem follows_ok {named : Bool} {found : Lexeme} {rest : Text} {token : Token} (fine : found.Fine named)
    (nested : ∀ depth, token.depthAfter? depth = found.depthAfter? depth) :
    Follows named (found, rest) (.ok (token, rest)) :=
  .inl ⟨fine, token, [], rfl, by simp [Quiet], nested⟩

/-- The name between angle brackets that begins a text, if there is one. -/
theorem escapeLexeme_reference (t : Text) :
    (∃ u name rest, t = '<' :: u ∧ groupName? u = some (name, rest) ∧
        escapeLexeme ('k' :: t) = (.reference true, rest)) ∨
      ((∀ u, t = '<' :: u → groupName? u = none) ∧ escapeLexeme ('k' :: t) = (.reference false, t)) := by
  cases found : (Text.dropLead? ['<'] t).bind groupName? with
  | some pair =>
    obtain ⟨u, lead, name⟩ := Option.bind_eq_some_iff.1 found
    refine .inl ⟨u, pair.1, pair.2, Text.dropLead?_eq_some.1 lead, name, ?_⟩
    simp [escapeLexeme, CodeSet.ofEscape?, found]
  | none =>
    refine .inr ⟨?_, by simp [escapeLexeme, CodeSet.ofEscape?, found]⟩
    rintro u rfl
    simpa [Text.dropLead?] using found

theorem readReference_follows (s : Source) (offset : Nat) (t : Text) :
    Follows s.captures.named (escapeLexeme ('k' :: t)) (readEscape s offset ('k' :: t)) := by
  have plain (unnamed : s.captures.named = false) : readEscape s offset ('k' :: t) = .ok (.code 'k', t) := by
    have letter : escapeCode 'k' t = ('k'.toNat, t) := rfl
    simp [readEscape, CodeSet.ofEscape?, unnamed, backref?, charEscape_eq, letter, CodeSet.isSurrogate]
  rcases escapeLexeme_reference t with ⟨u, name, rest, rfl, found, cut⟩ | ⟨missing, cut⟩
  · rw [cut]
    cases named : s.captures.named with
    | true =>
      have read : readEscape s offset ('k' :: '<' :: u) = .ok (.namedBackref name, rest) := by
        simp [readEscape, CodeSet.ofEscape?, named, found]
      rw [read]
      exact follows_ok (fun _ => rfl) fun _ => rfl
    | false =>
      obtain ⟨run, rfl, quiet⟩ := groupName?_run found
      refine .inl ⟨fun _ => rfl, .code 'k', '<' :: run, plain named, ?_, fun _ => rfl⟩
      intro c member
      rcases List.mem_cons.1 member with rfl | inside
      · decide
      · exact quiet c inside
  · rw [cut]
    cases named : s.captures.named with
    | true =>
      have read : ∃ fault, readEscape s offset ('k' :: t) = .error fault := by
        by_cases bracketed : ∃ u, t = '<' :: u
        · obtain ⟨u, rfl⟩ := bracketed
          exact ⟨.invalidEscape offset, by simp [readEscape, CodeSet.ofEscape?, named, missing u rfl]⟩
        · refine ⟨.invalidEscape offset, ?_⟩
          cases t with
          | nil => simp [readEscape, CodeSet.ofEscape?, named]
          | cons c u =>
            have other : c ≠ '<' := fun same => bracketed ⟨u, by rw [same]⟩
            simp [readEscape, CodeSet.ofEscape?, named, other]
      exact .inr ⟨fun complete => Bool.noConfusion (complete rfl), read⟩
    | false =>
      rw [plain named]
      exact follows_ok (fun wrong => by cases wrong) fun _ => rfl

theorem readEscape_follows (s : Source) (offset : Nat) (t : Text) :
    Follows s.captures.named (escapeLexeme t) (readEscape s offset t) := by
  cases t with
  | nil => exact .inr ⟨not_false, _, rfl⟩
  | cons c t =>
    by_cases reference : c = 'k'
    · subst reference
      exact readReference_follows s offset t
    · unfold readEscape escapeLexeme
      simp only [reference, false_and, ↓reduceIte, charEscape_eq]
      cases CodeSet.ofEscape? c with
      | some set => exact follows_ok rfl fun _ => rfl
      | none =>
        by_cases boundary : c = 'b' ∨ c = 'B'
        · rcases boundary with rfl | rfl
          · exact follows_ok trivial fun _ => rfl
          · exact follows_ok trivial fun _ => rfl
        · obtain ⟨noB, notB⟩ := not_or.1 boundary
          simp only [noB, notB, or_self, ↓reduceIte]
          by_cases digit : '1' ≤ c ∧ c ≤ '9'
          · obtain ⟨whole, run, left, quiet⟩ := escapeCode_decimal digit t
            simp only [backref?, digit, and_self, ↓reduceIte]
            by_cases known : Text.digitsValue (c :: t.takeWhile Char.isDigit) ≤ s.captures.count
            · simp only [known, ↓reduceIte]
              exact follows_ok trivial fun _ => rfl
            · simp only [known, whole, Bool.false_eq_true, ↓reduceIte, left]
              exact .inl ⟨trivial, _, run, rfl, quiet, fun _ => rfl⟩
          · simp only [backref?, digit, ↓reduceIte]
            cases half : CodeSet.isSurrogate (escapeCode c t).1 with
            | true => exact .inr ⟨by simp [Lexeme.Fine, Sign.isHalf, half], _, rfl⟩
            | false => exact follows_ok half fun _ => rfl

theorem readGroup_follows (named : Bool) (offset : Nat) (t : Text) :
    Follows named (openingLexeme t) (readGroup offset t) := by
  have stops {rest : Text} {fault : Fault} : Follows named (.badOpening, rest) (.error fault) :=
    .inr ⟨not_false, fault, rfl⟩
  unfold openingLexeme
  split
  · exact follows_ok trivial fun _ => rfl
  · exact follows_ok trivial fun _ => rfl
  · exact follows_ok trivial fun _ => rfl
  · exact follows_ok trivial fun _ => rfl
  · exact follows_ok trivial fun _ => rfl
  · next rest behind notBehind =>
    rw [readGroup]
    · cases groupName? rest with
      | some found => exact follows_ok trivial fun _ => rfl
      | none => exact stops
    · exact behind
    · exact notBehind
  · rw [readGroup] <;> first | exact stops | assumption
  · rw [readGroup] <;> first | exact follows_ok trivial fun _ => rfl | assumption

theorem readClass_readsTo (total : Nat) (t : Text) :
    (∃ signs rest, bracketLexeme t = (.bracket signs, rest) ∧ ReadsTo (SignsFine signs) rest (readClass total t)) ∨
      (bracketLexeme t = (.unclosed, []) ∧ ∃ fault, readClass total t = .error fault) := by
  have listed := classRead total (if t.head? = some '^' then t.tail else t)
  rw [ClassRead] at listed
  rw [bracketLexeme, readClass_eq]
  cases cut : classSigns (if t.head? = some '^' then t.tail else t) with
  | none =>
    rw [cut] at listed
    obtain ⟨fault, refused⟩ := listed
    exact .inr ⟨rfl, fault, by rw [refused]; rfl⟩
  | some found =>
    rw [cut] at listed
    refine .inl ⟨found.1, found.2, rfl, ?_⟩
    rcases listed with ⟨fine, items, accepted⟩ | ⟨flawed, fault, refused⟩
    · exact .inl ⟨fine, _, by rw [accepted]; rfl⟩
    · exact .inr ⟨flawed, fault, by rw [refused]; rfl⟩

theorem readClass_follows (s : Source) (t : Text) :
    Follows s.captures.named (bracketLexeme t) (readToken s '[' t) := by
  rcases readClass_readsTo s.length t with ⟨signs, rest, cut, accepted | flawed⟩ | ⟨cut, fault, refused⟩
  · obtain ⟨fine, ⟨negated, items⟩, read⟩ := accepted
    have read' : readToken s '[' t = .ok (.oneOf (CodeSet.scalars (classCodes negated items)), rest) := by
      simp [readToken, read]
    rw [cut, read']
    exact follows_ok fine fun _ => rfl
  · obtain ⟨bad, fault, refused⟩ := flawed
    rw [cut]
    exact .inr ⟨bad, fault, by simp [readToken, refused]⟩
  · rw [cut]
    exact .inr ⟨not_false, fault, by simp [readToken, refused]⟩

theorem escapeLexeme_ne (t : Text) : (escapeLexeme t).1 ≠ .quantifier := by
  unfold escapeLexeme
  split
  · simp
  · split
    · simp
    · split_ifs
      · simp
      · split <;> simp
      · simp
      · simp

theorem bracketLexeme_ne (t : Text) : (bracketLexeme t).1 ≠ .quantifier := by
  unfold bracketLexeme
  split <;> simp

theorem openingLexeme_ne (t : Text) : (openingLexeme t).1 ≠ .quantifier := by
  unfold openingLexeme
  split <;> try simp
  split <;> simp

/-- What begins here is read as the cut has it, but that a quantifier may not be followed by another. -/
theorem readToken_follows (s : Source) (c : Char) (t : Text) :
    ((lexeme c t).1 ≠ .quantifier ∧ Follows s.captures.named (lexeme c t) (readToken s c t)) ∨
      ((lexeme c t).1 = .quantifier ∧ ∃ q isLazy fault, readToken s c t =
        if startsQuantifier (lexeme c t).2 then .error fault else .ok (.quantifier q isLazy, (lexeme c t).2)) := by
  have repeats (q : Quantifier) (u : Text) : ∃ q' isLazy fault, readQuantifier s q u =
      if startsQuantifier (lazyMark u).2 then .error fault else .ok (.quantifier q' isLazy, (lazyMark u).2) :=
    ⟨q, (lazyMark u).1, _, rfl⟩
  cases special : Glob.isSpecial c with
  | false =>
    rw [lexeme_plain special, readToken_plain special]
    exact .inl ⟨by rintro ⟨⟩, follows_ok rfl fun _ => rfl⟩
  | true =>
    rcases special_cases special with rfl | rfl | rfl | rfl | rfl | rfl | rfl | rfl | rfl | rfl | rfl | rfl | rfl | rfl
    · exact .inl ⟨escapeLexeme_ne t, readEscape_follows s _ t⟩
    · exact .inl ⟨bracketLexeme_ne t, readClass_follows s t⟩
    · exact .inl ⟨by rintro ⟨⟩, follows_ok rfl fun _ => rfl⟩
    · exact .inl ⟨by rintro ⟨⟩, follows_ok rfl fun _ => rfl⟩
    · exact .inl ⟨by rintro ⟨⟩, follows_ok rfl fun _ => rfl⟩
    · exact .inl ⟨by rintro ⟨⟩, follows_ok rfl fun _ => rfl⟩
    · exact .inl ⟨by rintro ⟨⟩, follows_ok rfl fun _ => rfl⟩
    · exact .inr ⟨rfl, repeats .optional t⟩
    · exact .inr ⟨rfl, repeats .star t⟩
    · exact .inr ⟨rfl, repeats .plus t⟩
    · exact .inl ⟨openingLexeme_ne t, readGroup_follows _ _ t⟩
    · exact .inl ⟨by rintro ⟨⟩, follows_ok trivial fun _ => rfl⟩
    · simp only [lexeme, readToken]
      cases braces? t with
      | none => exact .inl ⟨by rintro ⟨⟩, follows_ok rfl fun _ => rfl⟩
      | some found => exact .inr ⟨rfl, repeats found.1 found.2⟩
    · exact .inl ⟨by rintro ⟨⟩, follows_ok rfl fun _ => rfl⟩

theorem startsQuantifier_iff (t : Text) : startsQuantifier t = true ↔ (lexemes t).head? = some .quantifier := by
  cases t with
  | nil => simp [startsQuantifier, lexemes_nil]
  | cons c t =>
    rw [lexemes_cons, List.head?_cons, Option.some.injEq]
    cases special : Glob.isSpecial c with
    | false =>
      have calm : Calm [c] := (spells_plain special).calm
      rw [startsQuantifier_calm (calm_cons_append calm), lexeme_plain special]
      simp
    | true =>
      have escape := escapeLexeme_ne t
      have bracket := bracketLexeme_ne t
      have opening := openingLexeme_ne t
      rcases special_cases special with
        rfl | rfl | rfl | rfl | rfl | rfl | rfl | rfl | rfl | rfl | rfl | rfl | rfl | rfl
      all_goals simp [startsQuantifier, lexeme, *]
      cases braces? t <;> simp

/-- Nothing is wrong with the lexemes, which begin where groups are nested `depth` deep. -/
structure Flawless (named : Bool) (depth : Nat) (l : List Lexeme) : Prop where
  fine : ∀ x ∈ l, x.Fine named
  apart : l.IsChain fun x y => ¬ (x = .quantifier ∧ y = .quantifier)
  nested : Closes Lexeme.opens Lexeme.closes depth l

theorem closes_lexeme (x : Lexeme) (l : List Lexeme) (depth : Nat) :
    Closes Lexeme.opens Lexeme.closes depth (x :: l) ↔
      ∃ inner, x.depthAfter? depth = some inner ∧ Closes Lexeme.opens Lexeme.closes inner l := by
  have same {inner : Nat} (step : x.depthAfter? depth = some inner)
      (count : inner + (if x.closes then 1 else 0) = depth + (if x.opens then 1 else 0)) :
      Closes Lexeme.opens Lexeme.closes depth (x :: l) ↔
        ∃ inner, x.depthAfter? depth = some inner ∧ Closes Lexeme.opens Lexeme.closes inner l := by
    rw [closes_cons count, step]
    simp
  cases x with
  | opening _ => exact same rfl rfl
  | closing =>
    cases depth with
    | zero =>
      constructor
      · intro closed
        exact absurd closed (not_closes (by decide))
      · rintro ⟨inner, step, _⟩
        cases step
    | succ depth => exact same rfl rfl
  | _ => exact same rfl rfl

theorem flawless_nil {named : Bool} {depth : Nat} : Flawless named depth [] ↔ depth = 0 := by
  constructor
  · intro flawless
    exact closes_nil.1 flawless.nested
  · intro ground
    exact ⟨by simp, .nil, closes_nil.2 ground⟩

theorem flawless_cons {named : Bool} {depth : Nat} {x : Lexeme} {l : List Lexeme} :
    Flawless named depth (x :: l) ↔ x.Fine named ∧ ¬ (x = .quantifier ∧ l.head? = some .quantifier) ∧
      ∃ inner, x.depthAfter? depth = some inner ∧ Flawless named inner l := by
  have next : (∀ y ∈ l.head?, ¬ (x = .quantifier ∧ y = .quantifier)) ↔
      ¬ (x = .quantifier ∧ l.head? = some .quantifier) := by
    cases l <;> simp
  constructor
  · rintro ⟨fine, apart, nested⟩
    rw [List.isChain_cons, next] at apart
    obtain ⟨inner, step, nested⟩ := (closes_lexeme x l depth).1 nested
    exact ⟨fine x (by simp), apart.1, inner, step, fun y member => fine y (by simp [member]), apart.2, nested⟩
  · rintro ⟨first, apart, inner, step, fine, chain, nested⟩
    refine ⟨?_, List.isChain_cons.2 ⟨next.2 apart, chain⟩, (closes_lexeme x l depth).2 ⟨inner, step, nested⟩⟩
    intro y member
    rcases List.mem_cons.1 member with rfl | later
    · exact first
    · exact fine y later

/-- The reader gets to the end of a text if nothing is wrong with its lexemes. -/
theorem tokensFrom_ok_iff (s : Source) (depth : Nat) (t : Text) :
    (∃ tokens, tokensFrom s depth t = .ok tokens) ↔ Flawless s.captures.named depth (lexemes t) := by
  induction size : t.length using Nat.strongRecOn generalizing t depth with
  | ind n ih =>
    cases t with
    | nil =>
      rw [lexemes_nil, flawless_nil, tokensFrom]
      by_cases ground : depth = 0 <;> simp [ground]
    | cons c t =>
      have shorter := (lexeme_suffix c t).length_le
      have behind (inner : Nat) : (∃ tokens, tokensFrom s inner (lexeme c t).2 = .ok tokens) ↔
          Flawless s.captures.named inner (lexemes (lexeme c t).2) :=
        ih _ (by simp at size; omega) inner _ rfl
      rw [lexemes_cons, flawless_cons, tokensFrom_cons]
      rcases readToken_follows s c t with ⟨other, follows⟩ | ⟨repeats, q, isLazy, fault, read⟩
      · rcases follows with ⟨fine, token, run, read, quiet, nested⟩ | ⟨flawed, fault, refused⟩
        · rw [read]
          simp only [nested]
          cases step : (lexeme c t).1.depthAfter? depth with
          | none => simp
          | some inner =>
            have on := (tokensFrom_run s inner quiet (lexeme c t).2).trans (behind inner)
            simp only [fine, other, false_and, not_false_eq_true, Option.some.injEq, exists_eq_left', true_and, ← on]
            cases tokensFrom s inner (run ++ (lexeme c t).2) <;> simp
        · rw [refused]
          simp [flawed]
      · rw [read, repeats]
        have next := startsQuantifier_iff (lexeme c t).2
        cases starts : startsQuantifier (lexeme c t).2 with
        | true =>
          rw [starts] at next
          simp [next.1 rfl]
        | false =>
          have apart : (lexemes (lexeme c t).2).head? ≠ some .quantifier := fun same => by
            rw [starts] at next
            cases next.2 same
          simp only [Bool.false_eq_true, ↓reduceIte, Token.depthAfter?, Lexeme.depthAfter?, Lexeme.Fine, apart,
            and_false, not_false_eq_true, Option.some.injEq, exists_eq_left', true_and, ← behind]
          cases tokensFrom s depth (lexeme c t).2 <;> simp

theorem engineSource_error_iff_flawed (source : Text) : (∃ fault, engineSource source = .error fault) ↔
    ¬ Flawless (Captures.ofSource source).named 0 (lexemes source) := by
  have reads : (∃ tokens, tokenize source = .ok tokens) ↔
      Flawless (Captures.ofSource source).named 0 (lexemes source) := tokensFrom_ok_iff (.of source) 0 source
  rw [← reads, engineSource]
  cases tokenize source <;> simp [Except.map]

/-- A source is refused just if it has a flaw. -/
theorem engineSource_error_iff (source : Text) : (∃ fault, engineSource source = .error fault) ↔ Flaw source := by
  obtain ⟨found, counted⟩ := scan_lexemes source
  rw [engineSource_error_iff_flawed]
  constructor
  · intro flawed
    by_contra none
    refine flawed ⟨?_, ?_, ?_⟩
    · intro x member
      cases x with
      | sign s =>
        cases half : s.isHalf with
        | true => exact absurd (.loneHalf s half member) none
        | false => exact half
      | reference complete =>
        intro named
        cases complete with
        | true => rfl
        | false =>
          rcases found named with opening | bad
          · exact absurd (.unnamedReference member opening) none
          · exact absurd (.badOpening bad) none
      | bracket signs =>
        constructor
        · intro s listed
          cases half : s.isHalf with
          | true => exact absurd (.loneHalfInClass s half signs listed member) none
          | false => rfl
        · cases inverted : anyInverted signs with
          | true => exact absurd (.invertedRange signs member inverted) none
          | false => rfl
      | dangling => exact none (.danglingBackslash member)
      | badOpening => exact none (.badOpening member)
      | unclosed => exact none (.unclosedClass member)
      | _ => trivial
    · refine List.isChain_iff_forall_rel_of_append_cons_cons.2 ?_
      rintro x y front behind whole ⟨rfl, rfl⟩
      exact none (.repeatedQuantifier ⟨front, behind, by simp [whole]⟩)
    · by_contra unbalanced
      exact none (.unbalanced unbalanced)
  · rintro flaw ⟨fine, apart, nested⟩
    cases flaw with
    | badOpening found => exact fine _ found
    | unbalanced found => exact found nested
    | unclosedClass found => exact fine _ found
    | invertedRange signs found inverted =>
      have ascending := (fine _ found).2
      rw [inverted] at ascending
      cases ascending
    | repeatedQuantifier found =>
      obtain ⟨front, behind, whole⟩ := found
      have split : lexemes source = front ++ .quantifier :: .quantifier :: behind := by simp [← whole]
      exact List.isChain_iff_forall_rel_of_append_cons_cons.1 apart split ⟨rfl, rfl⟩
    | danglingBackslash found => exact fine _ found
    | loneHalf s half found =>
      have whole : s.isHalf = false := fine _ found
      rw [half] at whole
      cases whole
    | loneHalfInClass s half signs listed found =>
      have whole := (fine _ found).1 s listed
      rw [half] at whole
      cases whole
    | unnamedReference found named =>
      have complete : (Captures.ofSource source).named = true → false = true := fine _ found
      exact Bool.noConfusion (complete (counted named))

end ProxyRouting.Regex
