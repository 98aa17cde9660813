import ProxyRouting.Proofs.Regex.Acceptance
import ProxyRouting.Proofs.Text.Escapes

/-!
How sources begin and end. A source that gives a pattern leaves nothing escaped behind it: the cut into lexemes and
the count of backslashes agree on what is escaped, in a class and out of it, whatever an escape consumes, so a
source that ends in an odd number of backslashes has a lexeme that it is refused for. Nor does it begin with a star,
which would have nothing to repeat. What stands between the slashes of its literal is therefore neither ended early
nor taken for a comment (`shut_of_compile`, `head_of_compile`).
-/
namespace ProxyRouting.Regex
open Text

theorem ne_backslash_of_quiet {run : Text} (quiet : Quiet run) : ∀ c ∈ run, c ≠ '\\' := by
  rintro c member rfl
  exact absurd (quiet _ member) (by decide)

theorem escapedAfter_skips : Skips (escapedAfter false) :=
  ⟨fun plain t => escapedAfter_run (ne_backslash_of_quiet (List.forall_mem_singleton.2 plain)) t, fun _ _ => by simp [escapedAfter]⟩

/-- The signs of a class that is closed leave nothing escaped. -/
theorem escapedAfter_classSigns {t rest : Text} {signs : List Sign} (found : classSigns t = some (signs, rest)) :
    escapedAfter false rest = escapedAfter false t := by
  fun_induction classSigns t generalizing signs with
  | case1 => cases found
  | case2 t =>
    cases found
    rfl
  | case3 c t _ ih =>
    obtain ⟨⟨others, behind⟩, inner, same⟩ := Option.map_eq_some_iff.1 found
    cases same
    rw [ih inner]
    cases t with
    | nil => simp [classSign, classSigns] at inner
    | cons d t =>
      by_cases escape : c = '\\'
      · subst escape
        rw [escapedAfter_skips.classEscape, escapedAfter_skips.escape]
      · rw [escapedAfter_plain escape, classSign]
        simp [escape]

theorem escapedAfter_bracketLexeme (t : Text) :
    (bracketLexeme t).1 = .unclosed ∨ escapedAfter false (bracketLexeme t).2 = escapedAfter false t := by
  have caret : escapedAfter false (if t.head? = some '^' then t.tail else t) = escapedAfter false t := by
    split
    · next first =>
      obtain ⟨rest, rfl⟩ := List.head?_eq_some_iff.1 first
      exact (escapedAfter_plain (by decide) rest).symm
    · rfl
  unfold bracketLexeme
  split
  · next found => exact .inr ((escapedAfter_classSigns found).trans caret)
  · exact .inl rfl

theorem escapedAfter_openingLexeme (t : Text) : escapedAfter false (openingLexeme t).2 = escapedAfter false t := by
  have two (c d : Char) (rest : Text) (first : c ≠ '\\') (second : d ≠ '\\') :
      escapedAfter false rest = escapedAfter false (c :: d :: rest) := by
    rw [escapedAfter_plain first, escapedAfter_plain second]
  unfold openingLexeme
  split
  · exact two _ _ _ (by decide) (by decide)
  · exact two _ _ _ (by decide) (by decide)
  · exact two _ _ _ (by decide) (by decide)
  · exact (escapedAfter_plain (by decide) _).symm.trans (two _ _ _ (by decide) (by decide))
  · exact (escapedAfter_plain (by decide) _).symm.trans (two _ _ _ (by decide) (by decide))
  · next rest _ _ =>
    split
    · next found =>
      obtain ⟨run, rfl, quiet⟩ := groupName?_run found
      exact (escapedAfter_skips.run quiet _).symm.trans (two _ _ _ (by decide) (by decide))
    · rfl
  · rfl
  · rfl

theorem escapedAfter_lazyMark (t : Text) : escapedAfter false (lazyMark t).2 = escapedAfter false t := by
  unfold lazyMark
  split
  · exact (escapedAfter_plain (by decide) _).symm
  · rfl

/-- A lexeme leaves nothing escaped, unless it is a lone backslash or a class that is never closed. -/
theorem escapedAfter_lexeme (c : Char) (t : Text) : (lexeme c t).1 = .dangling ∨ (lexeme c t).1 = .unclosed ∨
    escapedAfter false (lexeme c t).2 = escapedAfter false (c :: t) := by
  by_cases escape : c = '\\'
  · subst escape
    cases t with
    | nil => exact .inl rfl
    | cons d t =>
      have skipped : escapedAfter false (escapeLexeme (d :: t)).2 = escapedAfter false ('\\' :: d :: t) := by
        rw [escapedAfter_skips.escapeLexeme, escapedAfter_skips.escape]
      exact .inr (.inr skipped)
  · rw [escapedAfter_plain escape]
    unfold lexeme
    split
    · exact absurd rfl escape
    · exact .inr (escapedAfter_bracketLexeme t)
    · exact .inr (.inr (escapedAfter_openingLexeme t))
    · exact .inr (.inr rfl)
    · exact .inr (.inr (escapedAfter_lazyMark t))
    · exact .inr (.inr (escapedAfter_lazyMark t))
    · exact .inr (.inr (escapedAfter_lazyMark t))
    · split
      · next found =>
        obtain ⟨run, rfl, uncounted⟩ := braces?_run found
        rw [escapedAfter_run fun d member => (uncounted d member).1]
        exact .inr (.inr (escapedAfter_lazyMark _))
      · exact .inr (.inr rfl)
    · exact .inr (.inr rfl)

/-- A source whose lexemes are whole leaves nothing escaped behind it. -/
theorem escapedAfter_of_lexemes {t : Text} (dangling : .dangling ∉ lexemes t) (unclosed : .unclosed ∉ lexemes t) :
    escapedAfter false t = false := by
  induction size : t.length using Nat.strongRecOn generalizing t with
  | ind n ih =>
    cases t with
    | nil => rfl
    | cons c t =>
      have shorter := (lexeme_suffix c t).length_le
      rw [lexemes_cons, List.mem_cons, not_or] at dangling unclosed
      rcases escapedAfter_lexeme c t with lone | opened | same
      · exact absurd lone.symm dangling.1
      · exact absurd opened.symm unclosed.1
      · rw [← same]
        exact ih _ (by simp at size; omega) dangling.2 unclosed.2 rfl

theorem tokenize_of_compile {source : Text} {p : Pattern} (compiled : compile source = .ok p) :
    ∃ tokens, tokenize source = .ok tokens ∧ Pattern.ofTokens? tokens = some p := by
  unfold compile at compiled
  split at compiled
  · cases compiled
  · next tokens read =>
    split at compiled
    · next built =>
      cases compiled
      exact ⟨tokens, read, built⟩
    · cases compiled

theorem escapedAfter_of_compile {source : Text} {p : Pattern} (compiled : compile source = .ok p) :
    escapedAfter false source = false := by
  obtain ⟨tokens, read, _⟩ := tokenize_of_compile compiled
  have flawless := (tokensFrom_ok_iff (.of source) 0 source).1 ⟨tokens, read⟩
  exact escapedAfter_of_lexemes (flawless.fine _) (flawless.fine _)

/-- Between the slashes of a literal a source that gives a pattern stays, up to the closing one. -/
theorem shut_of_compile {source : Text} {p : Pattern} (compiled : compile source = .ok p) :
    Shut '/' false (escapeSlashes source) := shut_escapeSlashes (escapedAfter_of_compile compiled)

/-- A source that begins with a star gives no pattern. -/
theorem head_of_compile {source : Text} {p : Pattern} (compiled : compile source = .ok p) :
    (escapeSlashes source).head? ≠ some '*' := by
  intro star
  obtain ⟨tokens, read, built⟩ := tokenize_of_compile compiled
  cases source with
  | nil => cases star
  | cons c t =>
    have first : c = '*' := by
      rw [escapeSlashes, escapeSlashesFrom] at star
      split at star
      · cases star
      · exact Option.some.inj star
    subst first
    have alone (isLazy : Bool) : Builder.initial.step (.quantifier .star isLazy) = none := rfl
    have star (s : Source) : readToken s '*' t = readQuantifier s .star t := rfl
    rw [tokenize, tokensFrom_cons, star, readQuantifier] at read
    by_cases repeats : startsQuantifier (lazyMark t).2 = true
    · rw [if_pos repeats] at read
      cases read
    · rw [if_neg repeats] at read
      simp only [Token.depthAfter?] at read
      split at read
      · cases read
      · cases read
        rw [Pattern.ofTokens?, List.foldlM_cons, alone] at built
        cases built

end ProxyRouting.Regex
