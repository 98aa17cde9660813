import ProxyRouting.Proofs.Regex.Acceptance
import ProxyRouting.Proofs.Regex.Classes
import ProxyRouting.Proofs.Regex.EngineText

/-!
The count of groups against the reading. The count is taken in a pass of its own before anything is read, and knows
nothing but escapes, classes and what follows a parenthesis; where the reader gets through, it has counted the groups
that the reader opens, so a decimal escape is a back reference only to a group there is (`captures_agree`).
-/
namespace ProxyRouting.Regex

/-- A text is read piece by piece as tokens: each piece with the token it is read as. -/
inductive ReadAs (s : Source) : Text → List (Text × Token) → Prop
  | done : ReadAs s [] []
  | next {c : Char} {consumed rest : Text} {token : Token} {pieces : List (Text × Token)}
      (read : readToken s c (consumed ++ rest) = .ok (token, rest)) (later : ReadAs s rest pieces) :
      ReadAs s (c :: (consumed ++ rest)) ((c :: consumed, token) :: pieces)

/-- What is read as tokens is read piece by piece. -/
theorem readAs_of_tokensFrom {s : Source} {depth : Nat} {t : Text} {tokens : List Token}
    (read : tokensFrom s depth t = .ok tokens) : ∃ pieces, ReadAs s t pieces ∧ pieces.map Prod.snd = tokens := by
  refine tokensFrom_induction ?_ ?_ read
  · exact ⟨[], .done, rfl⟩
  · rintro depth inner c t rest token others first - ⟨pieces, behind, rfl⟩
    obtain ⟨consumed, rfl⟩ := readToken_suffix first
    exact ⟨(c :: consumed, token) :: pieces, .next first behind, rfl⟩

/-- The token opens a group that captures. -/
def Token.captures : Token → Bool
  | .opening .capture => true
  | .opening (.named _) => true
  | _ => false

/-- The token opens a group with a name. -/
def Token.names : Token → Bool
  | .opening (.named _) => true
  | _ => false

/-- The groups from a token on, `behind` being those that open behind it. -/
def Token.countGroups (token : Token) (behind : Captures) : Captures :=
  if token.captures then behind.withGroup token.names else behind

theorem readEscape_ne_opening {s : Source} {offset : Nat} {t rest : Text} {token : Token}
    (read : readEscape s offset t = .ok (token, rest)) : token.captures = false := by
  obtain ⟨c, u, -, escape⟩ := escapeRead_of_readEscape read
  cases escape <;> rfl

/-- An escape hides what it consumes from the count and nothing else. -/
theorem scan_readEscape {s : Source} {offset : Nat} {t rest : Text} {token : Token}
    (read : readEscape s offset t = .ok (token, rest)) :
    Captures.scan false ('\\' :: t) = Captures.scan false rest := by
  cases t with
  | nil => cases read
  | cons d t =>
    have escaped : Captures.scan false ('\\' :: d :: t) = Captures.scan false t := rfl
    rcases readEscape_follows s offset (d :: t) with ⟨_, token', run, read', quiet, _⟩ | ⟨_, fault, refused⟩
    · rw [read] at read'
      obtain ⟨-, rfl⟩ := Prod.mk.inj (Except.ok.inj read')
      rw [escaped, (scan_skips false).run quiet, (scan_skips false).escapeLexeme]
    · rw [read] at refused
      cases refused

/-- The count takes a parenthesis for a group that captures where the reader does. -/
theorem scan_readGroup {offset : Nat} {t rest : Text} {token : Token}
    (read : readGroup offset t = .ok (token, rest)) :
    Captures.scan false ('(' :: t) = token.countGroups (Captures.scan false rest) := by
  rw [Captures.scan_group]
  unfold readGroup at read
  split at read
  · cases read; exact Captures.scan_mark (by simp [Uncounted]) _
  · cases read; exact Captures.scan_mark (by simp [Uncounted]) _
  · cases read; exact Captures.scan_mark (by simp [Uncounted]) _
  · cases read; exact Captures.scan_angle (by simp [Uncounted]) _
  · cases read; exact Captures.scan_angle (by simp [Uncounted]) _
  · split at read
    · next found =>
      cases read
      obtain ⟨run, whole, quiet⟩ := groupName?_run found
      obtain ⟨begins, next, tail, rfl, starts, -⟩ := groupName?_eq found
      have passed : Captures.scan false ('?' :: '<' :: (run ++ rest)) = Captures.scan false rest := by
        rw [Captures.scan_mark (by simp [Uncounted]), (scan_skips false).run quiet]
      have inName : ¬ (next = '=' ∨ next = '!') := by
        rintro (rfl | rfl) <;> exact absurd starts (by decide)
      rw [← whole, begins] at passed
      rw [begins]
      exact (if_neg inName).trans (congrArg (Captures.withGroup true) passed)
    · cases read
  · cases read
  · next unmarked =>
    cases read
    split
    · exact absurd rfl (unmarked _)
    · exact absurd rfl (unmarked _)
    · rfl

/-- A quantifier is no group, and neither is its mark. -/
theorem scan_readQuantifier {s : Source} {q : Quantifier} {t rest : Text} {token : Token}
    (read : readQuantifier s q t = .ok (token, rest)) :
    Captures.scan false t = token.countGroups (Captures.scan false rest) := by
  simp only [readQuantifier] at read
  split at read
  · cases read
  · cases read
    exact (scan_lazyMark false t).symm

/-- The count and the reader find the same groups in what begins here. -/
theorem scan_readToken {s : Source} {c : Char} {t rest : Text} {token : Token}
    (read : readToken s c t = .ok (token, rest)) :
    Captures.scan false (c :: t) = token.countGroups (Captures.scan false rest) := by
  have passed {d : Char} (uncounted : Uncounted d) (u : Text) :
      Captures.scan false (d :: u) = Captures.scan false u := Captures.scan_uncounted uncounted u
  unfold readToken at read
  simp only at read
  split at read
  · rw [scan_readEscape read, Token.countGroups, readEscape_ne_opening read]
    rfl
  · split at read
    · next found =>
      cases read
      obtain ⟨listed, -⟩ := readItems_of_readClass found
      obtain ⟨signs, cut, -⟩ := listed_readItems listed
      rw [scan_bracket, (scan_classSigns _).1 signs rest cut]
      rfl
    · cases read
  · exact scan_readGroup read
  · cases read; exact passed (by simp [Uncounted]) t
  · cases read; exact passed (by simp [Uncounted]) t
  · rw [passed (by simp [Uncounted])]; exact scan_readQuantifier read
  · rw [passed (by simp [Uncounted])]; exact scan_readQuantifier read
  · rw [passed (by simp [Uncounted])]; exact scan_readQuantifier read
  · rw [passed (by simp [Uncounted])]
    split at read
    · next found =>
      obtain ⟨run, rfl, uncounted⟩ := braces?_run found
      rw [Captures.scan_run uncounted]
      exact scan_readQuantifier read
    · cases read; rfl
  · cases read; exact passed (by simp [Uncounted]) t
  · cases read; exact Captures.scan_plain (by decide) (by decide) t
  · cases read; exact passed (by simp [Uncounted]) t
  · cases read; exact passed (by simp [Uncounted]) t
  · cases read; exact passed (by simp [Uncounted]) t
  · cases read
    exact passed ⟨by assumption, by assumption, by assumption, by assumption⟩ t

theorem captures_of_names {token : Token} (named : token.names = true) : token.captures = true := by
  unfold Token.names at named
  split at named
  · rfl
  · cases named

/-- The groups of a text are those of its pieces that capture, and one of them has a name if one of those does. -/
theorem scan_readAs {s : Source} {t : Text} {pieces : List (Text × Token)} (read : ReadAs s t pieces) :
    Captures.scan false t =
      ⟨pieces.countP fun p => p.2.captures, pieces.any fun p => p.2.names⟩ := by
  induction read with
  | done => rfl
  | @next c consumed rest token pieces first later ih =>
    rw [scan_readToken first, ih, Token.countGroups]
    cases captures : token.captures with
    | true => simp [captures, Captures.withGroup, Bool.or_comm]
    | false =>
      have unnamed : token.names = false := by
        cases named : token.names with
        | false => rfl
        | true => rw [captures_of_names named] at captures; cases captures
      simp [captures, unnamed]

theorem backref?_le {captures : Captures} {c : Char} {t rest : Text} {n : Nat}
    (read : backref? captures c t = some (n, rest)) : n ≤ captures.count := by
  unfold backref? at read
  simp only at read
  split at read
  · split at read
    · next known => cases read; exact known
    · cases read
  · cases read

theorem readEscape_backref {s : Source} {offset n : Nat} {t rest : Text}
    (read : readEscape s offset t = .ok (.backref n, rest)) : n ≤ s.captures.count := by
  obtain ⟨c, u, -, escape⟩ := escapeRead_of_readEscape read
  cases escape with
  | group _ _ found => exact backref?_le found

/-- A back reference is to one of the groups that are counted. -/
theorem readToken_backref {s : Source} {c : Char} {n : Nat} {t rest : Text}
    (read : readToken s c t = .ok (.backref n, rest)) : 1 ≤ n ∧ n ≤ s.captures.count := by
  refine ⟨(placed_readToken read).sound, ?_⟩
  unfold readToken at read
  simp only at read
  split at read
  · exact readEscape_backref read
  · split at read <;> cases read
  · obtain ⟨-, group, other, -⟩ := sound_readGroup read
    cases other
  · cases read
  · cases read
  · obtain ⟨⟨isLazy, other⟩, -⟩ := readQuantifier_apart read
    cases other
  · obtain ⟨⟨isLazy, other⟩, -⟩ := readQuantifier_apart read
    cases other
  · obtain ⟨⟨isLazy, other⟩, -⟩ := readQuantifier_apart read
    cases other
  · split at read
    · obtain ⟨⟨isLazy, other⟩, -⟩ := readQuantifier_apart read
      cases other
    · cases read
  all_goals cases read

/-- A digit behind a backslash begins a back reference or stands with the backslash for one character. -/
theorem readToken_decimal {s : Source} {d : Char} {t rest : Text} {token : Token} (digit : d.isDigit = true)
    (read : readToken s '\\' (d :: t) = .ok (token, rest)) : (∃ n, token = .backref n) ∨ ∃ c, token = .code c := by
  have other {e : Char} (letter : e.isDigit = false) : d ≠ e := by
    rintro rfl
    rw [digit] at letter
    cases letter
  have noSet : CodeSet.ofEscape? d = none := by
    unfold CodeSet.ofEscape?
    split <;> first | rfl | exact absurd digit (by decide)
  have escaped : readEscape s (s.offset (d :: t) - 1) (d :: t) = .ok (token, rest) := read
  obtain ⟨c, u, begins, escape⟩ := escapeRead_of_readEscape escaped
  obtain ⟨rfl, rfl⟩ := List.cons.inj begins
  cases escape with
  | set set found => rw [noSet] at found; cases found
  | boundary inverted letter => exact absurd letter (other (by cases inverted <;> rfl))
  | named name u rest letter angle found => exact absurd letter (other rfl)
  | group n rest found => exact .inl ⟨n, rfl⟩
  | code c rest found => exact .inr ⟨c, rfl⟩

theorem readAs_mem {s : Source} {t : Text} {pieces : List (Text × Token)} (read : ReadAs s t pieces)
    {p : Text × Token} (member : p ∈ pieces) :
    ∃ c consumed rest, p.1 = c :: consumed ∧ readToken s c (consumed ++ rest) = .ok (p.2, rest) := by
  induction read with
  | done => cases member
  | @next c consumed rest token pieces first later ih =>
    rcases List.mem_cons.1 member with rfl | behind
    · exact ⟨c, consumed, rest, rfl, first⟩
    · exact ih behind

/-- A source that is accepted is read piece by piece. The count finds as many groups as the pieces open that capture,
    and a named one where one of those has a name; back references are to these groups, and any other escape with a
    digit is a single character. -/
theorem captures_agree {source out : Text} (done : engineSource source = .ok out) :
    ∃ pieces, ReadAs (.of source) source pieces ∧ out = render (pieces.map Prod.snd) ∧
      (Captures.ofSource source).count = (pieces.countP fun p => p.2.captures) ∧
      ((Captures.ofSource source).named = true ↔ ∃ p ∈ pieces, p.2.names = true) ∧
      (∀ p ∈ pieces, ∀ n, p.2 = .backref n → 1 ≤ n ∧ n ≤ pieces.countP fun p => p.2.captures) ∧
      ∀ p ∈ pieces, ∀ d t, p.1 = '\\' :: d :: t → d.isDigit = true →
        (∃ n, p.2 = .backref n) ∨ ∃ c, p.2 = .code c := by
  unfold engineSource at done
  cases read : tokenize source with
  | error fault =>
    rw [read] at done
    cases done
  | ok tokens =>
    rw [read] at done
    cases done
    obtain ⟨pieces, reading, rfl⟩ := readAs_of_tokensFrom read
    have counted : Captures.ofSource source = _ := scan_readAs reading
    refine ⟨pieces, reading, rfl, by rw [counted], ?_, ?_, ?_⟩
    · rw [counted]
      exact List.any_eq_true
    · rintro ⟨text, token⟩ member n rfl
      obtain ⟨c, consumed, rest, -, first⟩ := readAs_mem reading member
      have known : 1 ≤ n ∧ n ≤ (Captures.ofSource source).count := readToken_backref first
      rwa [counted] at known
    · intro p member d t begins digit
      obtain ⟨c, consumed, rest, same, first⟩ := readAs_mem reading member
      obtain ⟨rfl, rfl⟩ := List.cons.inj (same.symm.trans begins)
      exact readToken_decimal digit first

/-- A group with a name and one without, a reference to the second and one to a third. -/
theorem captures_agree_two :
    engineSource "(?<a>x)(y)\\2\\3".toList =
        .ok "(?<a>x)(y)(?:\\2)\\x\x7b3\x7d".toList ∧
      ∃ pieces, ReadAs (.of "(?<a>x)(y)\\2\\3".toList) "(?<a>x)(y)\\2\\3".toList pieces ∧
        "(?<a>x)(y)(?:\\2)\\x\x7b3\x7d".toList = render (pieces.map Prod.snd) ∧
        (Captures.ofSource "(?<a>x)(y)\\2\\3".toList).count = 2 ∧ (pieces.countP fun p => p.2.captures) = 2 ∧
        (Captures.ofSource "(?<a>x)(y)\\2\\3".toList).named = true ∧ (∃ p ∈ pieces, p.2.names = true) ∧
        (∀ p ∈ pieces, ∀ n, p.2 = .backref n → 1 ≤ n ∧ n ≤ 2) ∧
        ∀ p ∈ pieces, ∀ d t, p.1 = '\\' :: d :: t → d.isDigit = true →
          (∃ n, p.2 = .backref n) ∨ ∃ c, p.2 = .code c := by
  have done : engineSource "(?<a>x)(y)\\2\\3".toList = .ok "(?<a>x)(y)(?:\\2)\\x\x7b3\x7d".toList := by
    simp [engineSource, tokenize, tokensFrom_cons, tokensFrom, readToken, readGroup, groupName?, nameTail?, isNameStart,
      readEscape, Token.depthAfter?, CodeSet.ofEscape?, charEscape, controlLetter?, octalValue?, octalTail, backref?,
      Source.of, Captures.ofSource, Captures.scan, Captures.withGroup, Text.digitsValue,
      Nat.ofDigitChars_cons]
    rfl
  have count : (Captures.ofSource "(?<a>x)(y)\\2\\3".toList).count = 2 := by decide
  have name : (Captures.ofSource "(?<a>x)(y)\\2\\3".toList).named = true := by decide
  obtain ⟨pieces, readAs, same, counted, named, bounded, decimals⟩ := captures_agree done
  rw [count] at counted
  rw [← counted] at bounded
  exact ⟨done, pieces, readAs, same, count, counted.symm, name, named.1 name, bounded, decimals⟩

end ProxyRouting.Regex
