import Mathlib.Data.List.Induction
import ProxyRouting.Proofs.Text.Digits
import ProxyRouting.Regex.Source
import ProxyRouting.Text.Quoted

/-!
Escapes by backslashes. A character is escaped if an odd number of backslashes stands before it, which a reader that
goes from left to right knows by one bit (`escapedAfter_eq`). A text is shut against a mark if the mark stands in it
only escaped and the text leaves nothing escaped behind it; the mark then ends the text wherever the two stand
together. A quoted text is shut against quotes, and with its slashes escaped every source is shut against slashes
that does not end in a backslash of its own.
-/
namespace ProxyRouting
namespace Text

/-- The backslashes that a text ends in. -/
def backslashes (t : Text) : Nat := (t.reverse.takeWhile (· = '\\')).length

/-- Whether what follows a text is escaped, where the text itself begins escaped or not. -/
def escapedAfter : Bool → Text → Bool
  | escaped, [] => escaped
  | escaped, c :: t => escapedAfter (c = '\\' ∧ escaped = false) t

theorem escapedAfter_append (escaped : Bool) (s t : Text) :
    escapedAfter escaped (s ++ t) = escapedAfter (escapedAfter escaped s) t := by
  induction s generalizing escaped with
  | nil => rfl
  | cons c s ih => exact ih _

theorem escapedAfter_plain {c : Char} (plain : c ≠ '\\') (t : Text) :
    escapedAfter false (c :: t) = escapedAfter false t := by
  simp [escapedAfter, plain]

theorem escapedAfter_run {run : Text} (plain : ∀ c ∈ run, c ≠ '\\') (t : Text) :
    escapedAfter false (run ++ t) = escapedAfter false t := by
  induction run with
  | nil => rfl
  | cons c run ih =>
    rw [List.cons_append, escapedAfter_plain (plain c List.mem_cons_self)]
    exact ih fun d member => plain d (List.mem_cons_of_mem _ member)

/-- What follows a text is escaped if the text ends in an odd number of backslashes. -/
theorem escapedAfter_eq (t : Text) : escapedAfter false t = true ↔ backslashes t % 2 = 1 := by
  induction t using List.reverseRecOn with
  | nil => simp [escapedAfter, backslashes]
  | append_singleton init c ih =>
    rw [escapedAfter_append]
    by_cases backslash : c = '\\'
    · subst backslash
      have count : backslashes (init ++ ['\\']) = backslashes init + 1 := by simp [backslashes]
      have next : escapedAfter (escapedAfter false init) ['\\'] = !escapedAfter false init := by
        cases escapedAfter false init <;> rfl
      rw [next, count, Bool.not_eq_true', ← Bool.not_eq_true, ih]
      omega
    · have count : backslashes (init ++ [c]) = 0 := by simp [backslashes, backslash]
      simp [escapedAfter, backslash, count]

/-- Wherever the mark stands in a text it is escaped, and nothing behind the text is. -/
def Shut (mark : Char) : Bool → Text → Prop
  | escaped, [] => escaped = false
  | escaped, c :: t => (c = mark → escaped = true) ∧ Shut mark (c = '\\' ∧ escaped = false) t

variable {mark : Char} {escaped : Bool}

theorem shut_iff_escaped {t : Text} : Shut mark escaped t ↔
    (∀ before after, t = before ++ mark :: after → escapedAfter escaped before = true) ∧ escapedAfter escaped t = false := by
  induction t generalizing escaped with
  | nil => simp [Shut, escapedAfter]
  | cons c t ih =>
    rw [Shut, ih, escapedAfter]
    constructor
    · rintro ⟨first, marks, even⟩
      refine ⟨?_, even⟩
      intro before after parts
      cases before with
      | nil =>
        cases parts
        exact first rfl
      | cons d before =>
        cases parts
        exact marks before after rfl
    · rintro ⟨marks, even⟩
      refine ⟨?_, ?_, even⟩
      · rintro rfl
        exact marks [] t rfl
      · rintro before after rfl
        exact marks (c :: before) after rfl

/-- A text is shut if the mark stands only behind an odd number of backslashes, and an even number ends the text. -/
theorem shut_iff {t : Text} : Shut mark false t ↔
    (∀ before after, t = before ++ mark :: after → backslashes before % 2 = 1) ∧ backslashes t % 2 = 0 := by
  have even : escapedAfter false t = false ↔ backslashes t % 2 = 0 := by
    rw [← Bool.not_eq_true, escapedAfter_eq]
    omega
  simp only [shut_iff_escaped, escapedAfter_eq, even]

/-- Characters that neither escape nor are the mark make no difference. -/
theorem shut_run {run : Text} (plain : ∀ c ∈ run, c ≠ '\\' ∧ c ≠ mark) (t : Text) :
    Shut mark false (run ++ t) ↔ Shut mark false t := by
  induction run with
  | nil => rfl
  | cons c run ih =>
    obtain ⟨escape, other⟩ := plain c List.mem_cons_self
    rw [List.cons_append, Shut, ← ih fun d member => plain d (List.mem_cons_of_mem _ member)]
    simp [escape, other]

/-- An escape makes no difference. -/
theorem shut_escape (backslash : mark ≠ '\\') (c : Char) (t : Text) :
    Shut mark false ('\\' :: c :: t) ↔ Shut mark false t := by
  simp [Shut, Ne.symm backslash]

/-- The digits of a control character are neither quotes nor backslashes nor control characters. -/
theorem controlDigits {n : Nat} (control : n < 0x20) :
    ∀ c ∈ padZeros 4 (hexLower n), (c ≠ '\\' ∧ c ≠ '"') ∧ 0x20 ≤ c.toNat := by
  have digits : ∀ n < 0x20, (padZeros 4 (hexLower n)).all
      (fun c => decide ((c ≠ '\\' ∧ c ≠ '"') ∧ 0x20 ≤ c.toNat)) = true := by decide
  exact forall_mem_of_all (digits n control)

/-- A quoted character is shut against quotes, and no control character. -/
theorem escapeChar_cases (c : Char) :
    (∃ d run, escapeChar c = '\\' :: d :: run ∧ 0x20 ≤ d.toNat ∧ ∀ e ∈ run, (e ≠ '\\' ∧ e ≠ '"') ∧ 0x20 ≤ e.toNat) ∨
      (escapeChar c = [c] ∧ (c ≠ '\\' ∧ c ≠ '"') ∧ 0x20 ≤ c.toNat) := by
  have short {d : Char} (printable : 0x20 ≤ d.toNat) : ∃ e run, ['\\', d] = '\\' :: e :: run ∧ 0x20 ≤ e.toNat ∧
      ∀ e ∈ run, (e ≠ '\\' ∧ e ≠ '"') ∧ 0x20 ≤ e.toNat := ⟨d, [], rfl, printable, List.forall_mem_nil _⟩
  unfold escapeChar
  split
  · exact .inl (short (by decide))
  · exact .inl (short (by decide))
  · exact .inl (short (by decide))
  · exact .inl (short (by decide))
  · exact .inl (short (by decide))
  · exact .inl (short (by decide))
  · exact .inl (short (by decide))
  · next noQuote noEscape _ _ _ _ _ =>
    split
    · next control => exact .inl ⟨'u', _, rfl, by decide, controlDigits control⟩
    · next printable => exact .inr ⟨rfl, ⟨noEscape, noQuote⟩, Nat.not_lt.1 printable⟩

theorem shut_escapeChar (c : Char) (t : Text) : Shut '"' false (escapeChar c ++ t) ↔ Shut '"' false t := by
  rcases escapeChar_cases c with ⟨d, run, spelled, _, plain⟩ | ⟨spelled, plain, _⟩
  · rw [spelled]
    exact (shut_escape (by decide) d (run ++ t)).trans (shut_run (fun e member => (plain e member).1) t)
  · rw [spelled]
    exact shut_run (fun e member => List.mem_singleton.1 member ▸ plain) t

theorem shut_quoted (t : Text) : Shut '"' false (t.flatMap escapeChar) := by
  induction t with
  | nil => rfl
  | cons c t ih =>
    rw [List.flatMap_cons, shut_escapeChar]
    exact ih

theorem printable_quoted {t : Text} {c : Char} (member : c ∈ t.flatMap escapeChar) : 0x20 ≤ c.toNat := by
  obtain ⟨d, _, here⟩ := List.mem_flatMap.1 member
  rcases escapeChar_cases d with ⟨e, run, spelled, printable, plain⟩ | ⟨spelled, _, printable⟩
  · rw [spelled] at here
    rcases List.mem_cons.1 here with rfl | here
    · decide
    · rcases List.mem_cons.1 here with rfl | here
      · exact printable
      · exact (plain c here).2
  · rw [spelled] at here
    rw [List.mem_singleton.1 here]
    exact printable

/-- Escaping slashes leaves no slash unescaped, and the end of the text as it was. -/
theorem shut_escapeSlashesFrom (escaped : Bool) (t : Text) :
    Shut '/' escaped (Regex.escapeSlashesFrom escaped t) ↔ escapedAfter escaped t = false := by
  induction t generalizing escaped with
  | nil => rfl
  | cons c t ih =>
    rw [Regex.escapeSlashesFrom, escapedAfter]
    by_cases bare : c = '/' ∧ escaped = false
    · obtain ⟨rfl, rfl⟩ := bare
      rw [if_pos ⟨rfl, rfl⟩]
      exact (shut_escape (by decide) '/' _).trans (ih false)
    · rw [if_neg bare, List.singleton_append, Shut, ih]
      refine and_iff_right ?_
      rintro rfl
      simpa using bare

theorem shut_escapeSlashes {t : Text} (unescaped : escapedAfter false t = false) : Shut '/' false (Regex.escapeSlashes t) :=
  (shut_escapeSlashesFrom false t).2 unescaped

end Text
end ProxyRouting
