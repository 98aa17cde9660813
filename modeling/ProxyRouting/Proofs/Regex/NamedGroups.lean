import ProxyRouting.Proofs.Regex.Lexeme
import ProxyRouting.Proofs.Regex.Reading
import ProxyRouting.Proofs.Text.Digits

/-!
The named groups of a source. They are counted before anything is read, by a pass that knows nothing but escapes,
classes and parentheses; it finds the groups with names that the cut into lexemes finds, or there is one that opens
badly (`scan_lexemes`).
-/
namespace ProxyRouting.Regex

/-- Each of the characters stands for itself wherever it is written. -/
def Quiet (run : Text) : Prop := ∀ c ∈ run, Glob.isSpecial c = false

theorem quiet_of_name {c : Char} (part : (isNameStart c || c.isDigit) = true) : Glob.isSpecial c = false := by
  cases special : Glob.isSpecial c with
  | false => rfl
  | true =>
    have all : ∀ d ∈ "\\[]^$.|?*+()\x7b\x7d".toList, (isNameStart d || d.isDigit) = false :=
      Text.forall_mem_of_all (by decide)
    rw [all c (List.contains_iff_mem.1 special)] at part
    cases part

theorem quiet_of_isDigit {run : Text} (digits : ∀ c ∈ run, c.isDigit = true) : Quiet run :=
  fun c member => quiet_of_name (by rw [digits c member, Bool.or_true])

theorem quiet_append {run run' : Text} (first : Quiet run) (second : Quiet run') : Quiet (run ++ run') :=
  fun c member => (List.mem_append.1 member).elim (first c) (second c)

theorem quiet_of_isGroupName {name : Text} (isName : IsGroupName name) : Quiet name := by
  obtain ⟨c, t, rfl, starts, parts⟩ := isName
  intro d member
  rcases List.mem_cons.1 member with rfl | inside
  · exact quiet_of_name (by simp [starts])
  · exact quiet_of_name (parts d inside)

theorem groupName?_run {t name rest : Text} (found : groupName? t = some (name, rest)) :
    ∃ run, t = run ++ rest ∧ Quiet run := by
  obtain ⟨rfl, isName⟩ := groupName?_eq found
  have bracket : Quiet ['>'] := by simp [Quiet, Glob.isSpecial]
  exact ⟨name ++ ['>'], by simp, quiet_append (quiet_of_isGroupName isName) bracket⟩

theorem octalTail_run (count value : Nat) (t : Text) :
    ∃ run, t = run ++ (octalTail count value t).2 ∧ ∀ c ∈ run, c.isDigit = true := by
  induction count generalizing value t with
  | zero => exact ⟨[], rfl, by simp⟩
  | succ count ih =>
    cases t with
    | nil => exact ⟨[], rfl, by simp⟩
    | cons c t =>
      rw [octalTail]
      cases read : octalValue? c with
      | none => exact ⟨[], rfl, by simp⟩
      | some digit =>
        obtain ⟨run, whole, digits⟩ := ih (value * 8 + digit) t
        refine ⟨c :: run, by rw [List.cons_append, ← whole], ?_⟩
        intro d member
        rcases List.mem_cons.1 member with rfl | later
        · unfold octalValue? at read
          split at read
          · next octal =>
            have below : d ≤ '9' := Char.le_trans octal.2 (by decide)
            simp only [Char.isDigit, ge_iff_le, Bool.and_eq_true, decide_eq_true_eq]
            exact ⟨octal.1, below⟩
          · cases read
        · exact digits d later

theorem octalTail_digits (count value : Nat) (t : Text) :
    ∃ run, (octalTail count value t).2 = run ++ t.dropWhile Char.isDigit ∧ Quiet run := by
  obtain ⟨run, whole, digits⟩ := octalTail_run count value t
  generalize (octalTail count value t).2 = rest at whole
  subst whole
  refine ⟨rest.takeWhile Char.isDigit, ?_, quiet_of_isDigit fun c member => List.mem_takeWhile_imp member⟩
  rw [List.dropWhile_append_of_pos digits, List.takeWhile_append_dropWhile]

theorem quiet_of_hexValue? {c : Char} {digit : Nat} (read : Text.hexValue? c = some digit) :
    Glob.isSpecial c = false := by
  refine quiet_of_name ?_
  unfold Text.hexValue? at read
  split at read
  · next decimal => simp [decimal]
  · split at read
    · next inside =>
      have lower : c.isLower = true := by
        have low := Char.le_def.1 inside.1
        have high := Char.le_def.1 (Char.le_trans inside.2 (show 'f' ≤ 'z' by decide))
        exact Bool.and_eq_true_iff.2 ⟨decide_eq_true low, decide_eq_true high⟩
      have letter : c.isAlpha = true := Bool.or_eq_true_iff.2 (.inr lower)
      simp [isNameStart, letter]
    · split at read
      · next inside =>
        have upper : c.isUpper = true := by
          have low := Char.le_def.1 inside.1
          have high := Char.le_def.1 (Char.le_trans inside.2 (show 'F' ≤ 'Z' by decide))
          exact decide_eq_true ⟨low, high⟩
        have letter : c.isAlpha = true := Bool.or_eq_true_iff.2 (.inl upper)
        simp [isNameStart, letter]
      · cases read

theorem hexDigits?_run {count n : Nat} {t rest : Text} (read : Text.hexDigits? count t = some (n, rest)) :
    ∃ run, t = run ++ rest ∧ Quiet run := by
  have go : ∀ (count value : Nat) (t : Text), Text.hexDigits?.go count value t = some (n, rest) →
      ∃ run, t = run ++ rest ∧ Quiet run := by
    intro count
    induction count with
    | zero =>
      intro value t h
      simp only [Text.hexDigits?.go, Option.some.injEq, Prod.mk.injEq] at h
      exact ⟨[], h.2, by simp [Quiet]⟩
    | succ count ih =>
      intro value t h
      cases t with
      | nil => simp [Text.hexDigits?.go] at h
      | cons c t =>
        obtain ⟨digit, found, h⟩ := Option.bind_eq_some_iff.1 h
        obtain ⟨run, rfl, quiet⟩ := ih _ _ h
        refine ⟨c :: run, rfl, ?_⟩
        intro d member
        rcases List.mem_cons.1 member with rfl | later
        · exact quiet_of_hexValue? found
        · exact quiet d later
  exact go count 0 t read

/-- The characters that do not stand for themselves. -/
theorem special_cases {c : Char} (special : Glob.isSpecial c = true) :
    c = '\\' ∨ c = '[' ∨ c = ']' ∨ c = '^' ∨ c = '$' ∨ c = '.' ∨ c = '|' ∨ c = '?' ∨ c = '*' ∨ c = '+' ∨ c = '(' ∨
      c = ')' ∨ c = '\x7b' ∨ c = '\x7d' := by
  simpa [Glob.isSpecial] using special

theorem lexeme_plain {c : Char} (plain : Glob.isSpecial c = false) (t : Text) : lexeme c t = (.sign (.raw c), t) := by
  unfold lexeme
  split <;> first | rfl | exact absurd plain (by decide)

/-- What a text is taken for depends neither on a character in front of it that stands for itself nor on an escape. -/
structure Skips {α : Type} (f : Text → α) : Prop where
  plain : ∀ {c : Char}, Glob.isSpecial c = false → ∀ t, f (c :: t) = f t
  escape : ∀ c t, f ('\\' :: c :: t) = f t

namespace Skips
variable {α : Type} {f : Text → α}

theorem run (skips : Skips f) {run : Text} (quiet : Quiet run) (t : Text) : f (run ++ t) = f t := by
  induction run with
  | nil => rfl
  | cons c run ih =>
    rw [List.cons_append, skips.plain (quiet c (by simp)), ih fun d member => quiet d (by simp [member])]

theorem pairCode (skips : Skips f) (unit : Nat) (t : Text) : f (pairCode unit t).2 = f t := by
  unfold Regex.pairCode
  split
  · next low rest found =>
    split
    · obtain ⟨u, lead, digits⟩ := Option.bind_eq_some_iff.1 found
      obtain ⟨run, rfl, quiet⟩ := hexDigits?_run (Option.filter_eq_some_iff.1 digits).1
      rw [Text.dropLead?_eq_some.1 lead]
      exact ((skips.escape 'u' _).trans (skips.run quiet rest)).symm
    · rfl
  · rfl

theorem escapeCode (skips : Skips f) (c : Char) (t : Text) : f (escapeCode c t).2 = f t := by
  unfold Regex.escapeCode
  split
  · rfl
  · split
    · next digit _ =>
      obtain ⟨run, whole, digits⟩ := octalTail_run (if digit ≤ 3 then 2 else 1) digit t
      conv_rhs => rw [whole]
      exact (skips.run (quiet_of_isDigit digits) _).symm
    · split
      · cases read : Text.hexDigits? 2 t with
        | none => rfl
        | some found =>
          obtain ⟨run, rfl, quiet⟩ := hexDigits?_run read
          exact (skips.run quiet _).symm
      · split
        · split
          · next read =>
            obtain ⟨run, rfl, quiet⟩ := hexDigits?_run read
            rw [skips.pairCode, skips.run quiet]
          · rfl
        · split
          · next control =>
            subst control
            have letter (rest : Text) : f ('c' :: rest) = f rest := skips.plain (by decide) rest
            split
            · split
              · next alpha => exact (skips.plain (quiet_of_name (by simp [isNameStart, alpha])) _).symm
              · exact letter _
            · exact letter []
          · rfl

theorem classEscape (skips : Skips f) (c : Char) (t : Text) : f (classSign '\\' (c :: t)).2 = f t := by
  simp only [classSign, ↓reduceIte]
  cases CodeSet.ofEscape? c with
  | some set => rfl
  | none =>
    by_cases backspace : c = 'b'
    · simp [backspace]
    · simp only [backspace, ↓reduceIte]
      exact skips.escapeCode c t

theorem escapeLexeme (skips : Skips f) (c : Char) (t : Text) : f (escapeLexeme (c :: t)).2 = f t := by
  simp only [Regex.escapeLexeme]
  cases CodeSet.ofEscape? c with
  | some set => rfl
  | none =>
    by_cases boundary : c = 'b' ∨ c = 'B'
    · simp only [boundary, ↓reduceIte]
    · by_cases reference : c = 'k'
      · simp only [reference, ↓reduceIte]
        cases found : (Text.dropLead? ['<'] t).bind groupName? with
        | none => simp
        | some pair =>
          obtain ⟨u, lead, name⟩ := Option.bind_eq_some_iff.1 found
          obtain ⟨run, rfl, quiet⟩ := groupName?_run name
          rw [Text.dropLead?_eq_some.1 lead]
          exact ((skips.plain (by decide) _).trans (skips.run quiet _)).symm
      · by_cases digit : '1' ≤ c ∧ c ≤ '9'
        · simp only [boundary, reference, digit, and_self, ↓reduceIte]
          conv_rhs => rw [← List.takeWhile_append_dropWhile (p := Char.isDigit) (l := t)]
          exact (skips.run (quiet_of_isDigit fun c member => List.mem_takeWhile_imp member) _).symm
        · simp only [boundary, reference, digit, ↓reduceIte]
          exact skips.escapeCode c t

end Skips

theorem escapeLexeme_ne_opening (t : Text) : (escapeLexeme t).1 ≠ .opening true := by
  unfold escapeLexeme
  split
  · simp
  · split
    · simp
    · split_ifs
      · simp
      · split <;> simp
      · simp
      · simp

/-! ## What the count passes over -/

/-- The count of groups passes over the character. -/
def Uncounted (c : Char) : Prop := c ≠ '\\' ∧ c ≠ '[' ∧ c ≠ ']' ∧ c ≠ '('

theorem uncounted_of_plain {c : Char} (plain : Glob.isSpecial c = false) : Uncounted c := by
  refine ⟨?_, ?_, ?_, ?_⟩ <;> rintro rfl <;> exact absurd plain (by decide)

namespace Captures

theorem scan_uncounted {inClass : Bool} {c : Char} (uncounted : Uncounted c) (t : Text) :
    scan inClass (c :: t) = scan inClass t := by
  obtain ⟨escape, opens, closes, group⟩ := uncounted
  rw [scan_plain escape (by simp [group]), if_neg opens, if_neg closes]

theorem scan_mark {inClass : Bool} {c : Char} (uncounted : Uncounted c) (t : Text) :
    scan inClass ('?' :: c :: t) = scan inClass t := by
  rw [scan_uncounted (by simp [Uncounted]), scan_uncounted uncounted]

theorem scan_angle {inClass : Bool} {c : Char} (uncounted : Uncounted c) (t : Text) :
    scan inClass ('?' :: '<' :: c :: t) = scan inClass t := by
  rw [scan_mark (by simp [Uncounted]), scan_uncounted uncounted]

theorem scan_run {inClass : Bool} {run : Text} (uncounted : ∀ c ∈ run, Uncounted c) (t : Text) :
    scan inClass (run ++ t) = scan inClass t := by
  induction run with
  | nil => rfl
  | cons c run ih =>
    rw [List.cons_append, scan_uncounted (uncounted c (by simp)), ih fun d member => uncounted d (by simp [member])]

end Captures

theorem scan_skips (inClass : Bool) : Skips (Captures.scan inClass) :=
  ⟨fun plain t => Captures.scan_uncounted (uncounted_of_plain plain) t, fun _ _ => rfl⟩

theorem scan_classSign {c : Char} (inside : c ≠ ']') (t : Text) :
    Captures.scan true (classSign c t).2 = Captures.scan true (c :: t) := by
  by_cases escape : c = '\\'
  · subst escape
    cases t with
    | nil => rfl
    | cons d rest =>
      exact (scan_skips true).classEscape d rest
  · have single : (classSign c t).2 = t := by
      cases t <;> simp [classSign, escape]
    rw [single, Captures.scan_plain escape (by simp), if_neg inside, ite_self]

/-- A class holds no groups, and one that is never closed hides all that follow. -/
theorem scan_classSigns (t : Text) : (∀ signs rest, classSigns t = some (signs, rest) →
      Captures.scan true t = Captures.scan false rest) ∧
    (classSigns t = none → (Captures.scan true t).named = false) := by
  fun_induction classSigns t with
  | case1 => exact ⟨by simp, fun _ => rfl⟩
  | case2 t =>
    refine ⟨?_, by simp⟩
    rintro signs rest ⟨⟩
    rfl
  | case3 c t inside ih =>
    rw [← scan_classSign inside]
    constructor
    · intro signs rest found
      obtain ⟨⟨others, behind⟩, inner, same⟩ := Option.map_eq_some_iff.1 found
      cases same
      exact ih.1 others behind inner
    · intro missing
      exact ih.2 (Option.map_eq_none_iff.1 missing)

/-- The characters of a quantifier in braces hold no groups. -/
theorem braces?_run {t rest : Text} {q : Quantifier} (read : braces? t = some (q, rest)) :
    ∃ run, t = run ++ rest ∧ ∀ c ∈ run, Uncounted c := by
  obtain ⟨whole, sound⟩ := braces?_eq read
  have signs : ∀ d ∈ quantifierSigns, d ≠ '\\' ∧ d ≠ '[' ∧ d ≠ ']' ∧ d ≠ '(' := Text.forall_mem_of_all (by decide)
  have uncounted : ∀ c ∈ q.render, Uncounted c := by
    intro c member
    rcases mem_quantifier sound c member with digit | sign
    · exact uncounted_of_plain (quiet_of_name (by rw [digit, Bool.or_true]))
    · exact signs c sign
  cases spelled : q.render with
  | nil => cases q <;> cases spelled
  | cons c run =>
    rw [spelled] at whole uncounted
    exact ⟨run, (List.cons.inj whole).2, fun d member => uncounted d (List.mem_cons_of_mem c member)⟩

/-- `now` holds if the lexeme or what is behind it has a named group, and if it holds, one of them has, or the
    lexeme is a group that opens badly. -/
def Names (found : Lexeme × Text) (now : Bool) : Prop :=
  (now = true → found.1 = .opening true ∨ found.1 = .badOpening ∨ (Captures.scan false found.2).named = true) ∧
    (found.1 = .opening true ∨ (Captures.scan false found.2).named = true → now = true)

theorem names_of_scan {found : Lexeme × Text} {t : Text} (other : found.1 ≠ .opening true)
    (same : Captures.scan false t = Captures.scan false found.2) : Names found (Captures.scan false t).named := by
  rw [Names, same]
  simp only [other, false_or]
  exact ⟨.inr, id⟩

theorem scan_escapeLexeme (t : Text) : Names (escapeLexeme t) (Captures.scan false ('\\' :: t)).named := by
  cases t with
  | nil => exact names_of_scan (escapeLexeme_ne_opening []) rfl
  | cons c t => exact names_of_scan (escapeLexeme_ne_opening (c :: t)) ((scan_skips false).escapeLexeme c t).symm

/-- A class is looked into behind its bracket and its caret. -/
theorem scan_bracket (t : Text) : Captures.scan false ('[' :: t) =
    Captures.scan true (if t.head? = some '^' then t.tail else t) := by
  have opens : Captures.scan false ('[' :: t) = Captures.scan true t := Captures.scan_plain (by decide) (by decide) t
  rw [opens]
  split
  · next first =>
    obtain ⟨rest, rfl⟩ := List.head?_eq_some_iff.1 first
    exact Captures.scan_uncounted (by simp [Uncounted]) rest
  · rfl

theorem scan_bracketLexeme (t : Text) : Names (bracketLexeme t) (Captures.scan false ('[' :: t)).named := by
  rw [scan_bracket]
  unfold bracketLexeme
  obtain ⟨closed, unclosed⟩ := scan_classSigns (if t.head? = some '^' then t.tail else t)
  cases cut : classSigns (if t.head? = some '^' then t.tail else t) with
  | some found =>
    rw [closed found.1 found.2 cut]
    exact names_of_scan (by simp) rfl
  | none =>
    rw [unclosed cut]
    exact ⟨by simp, by simp [Captures.scan]⟩

theorem scan_openingLexeme (t : Text) : Names (openingLexeme t) (Captures.scan false ('(' :: t)).named := by
  rw [Captures.scan_group]
  unfold openingLexeme
  split
  · exact names_of_scan (by simp) (Captures.scan_mark (by simp [Uncounted]) _)
  · exact names_of_scan (by simp) (Captures.scan_mark (by simp [Uncounted]) _)
  · exact names_of_scan (by simp) (Captures.scan_mark (by simp [Uncounted]) _)
  · exact names_of_scan (by simp) (Captures.scan_angle (by simp [Uncounted]) _)
  · exact names_of_scan (by simp) (Captures.scan_angle (by simp [Uncounted]) _)
  · next rest behind notBehind =>
    have named : ∀ next u, rest = next :: u → next ≠ '=' ∧ next ≠ '!' := by
      rintro next u rfl
      exact ⟨fun same => behind u (by rw [same]), fun same => notBehind u (by rw [same])⟩
    cases rest with
    | nil => exact names_of_scan (by simp [groupName?]) rfl
    | cons next u =>
      obtain ⟨noBehind, noNotBehind⟩ := named next u rfl
      simp only [noBehind, noNotBehind, or_self, ↓reduceIte]
      cases groupName? (next :: u) with
      | some found => exact ⟨fun _ => .inl rfl, fun _ => by simp [Captures.withGroup]⟩
      | none => exact ⟨fun _ => .inr (.inl rfl), fun _ => by simp [Captures.withGroup]⟩
  · next u _ _ _ _ _ unnamed =>
    split
    · next same => exact absurd (List.cons.inj same).2 (unnamed _)
    · exact names_of_scan (by simp) rfl
    · next other => exact absurd rfl (other u)
  · next unmarked =>
    split
    · exact absurd rfl (unmarked _)
    · exact absurd rfl (unmarked _)
    · rw [Names]
      simp [Captures.withGroup]

theorem scan_lazyMark (inClass : Bool) (t : Text) : Captures.scan inClass (lazyMark t).2 = Captures.scan inClass t := by
  unfold lazyMark
  split
  · exact (Captures.scan_uncounted (by simp [Uncounted]) _).symm
  · rfl

theorem scan_lexeme (c : Char) (t : Text) : Names (lexeme c t) (Captures.scan false (c :: t)).named := by
  cases special : Glob.isSpecial c with
  | false =>
    rw [lexeme_plain special]
    exact names_of_scan (by simp) (Captures.scan_uncounted (uncounted_of_plain special) t)
  | true =>
    have passed {d : Char} (uncounted : Uncounted d) (u : Text) :
        Captures.scan false (d :: u) = Captures.scan false u := Captures.scan_uncounted uncounted u
    rcases special_cases special with rfl | rfl | rfl | rfl | rfl | rfl | rfl | rfl | rfl | rfl | rfl | rfl | rfl | rfl
    · exact scan_escapeLexeme t
    · exact scan_bracketLexeme t
    · exact names_of_scan (by rintro ⟨⟩) (Captures.scan_plain (by decide) (by decide) t)
    · exact names_of_scan (by rintro ⟨⟩) (passed (by simp [Uncounted]) t)
    · exact names_of_scan (by rintro ⟨⟩) (passed (by simp [Uncounted]) t)
    · exact names_of_scan (by rintro ⟨⟩) (passed (by simp [Uncounted]) t)
    · exact names_of_scan (by rintro ⟨⟩) (passed (by simp [Uncounted]) t)
    · exact names_of_scan (by rintro ⟨⟩) ((passed (by simp [Uncounted]) t).trans (scan_lazyMark false t).symm)
    · exact names_of_scan (by rintro ⟨⟩) ((passed (by simp [Uncounted]) t).trans (scan_lazyMark false t).symm)
    · exact names_of_scan (by rintro ⟨⟩) ((passed (by simp [Uncounted]) t).trans (scan_lazyMark false t).symm)
    · exact scan_openingLexeme t
    · exact names_of_scan (by rintro ⟨⟩) (passed (by simp [Uncounted]) t)
    · rw [passed (by simp [Uncounted])]
      simp only [lexeme]
      cases read : braces? t with
      | none => exact names_of_scan (by simp) rfl
      | some found =>
        obtain ⟨run, rfl, uncounted⟩ := braces?_run read
        rw [Captures.scan_run uncounted]
        exact names_of_scan (by simp) (scan_lazyMark false _).symm
    · exact names_of_scan (by rintro ⟨⟩) (passed (by simp [Uncounted]) t)

theorem scan_lexemes (t : Text) :
    ((Captures.scan false t).named = true → .opening true ∈ lexemes t ∨ .badOpening ∈ lexemes t) ∧
      (.opening true ∈ lexemes t → (Captures.scan false t).named = true) := by
  induction size : t.length using Nat.strongRecOn generalizing t with
  | ind n ih =>
    cases t with
    | nil => simp [lexemes_nil, Captures.scan]
    | cons c t =>
      have shorter := (lexeme_suffix c t).length_le
      obtain ⟨found, counted⟩ := ih _ (by simp at size; omega) (lexeme c t).2 rfl
      obtain ⟨finds, counts⟩ := scan_lexeme c t
      rw [lexemes_cons]
      constructor
      · intro named
        rcases finds named with here | bad | later
        · simp [here]
        · simp [bad]
        · rcases found later with opening | bad
          · simp [opening]
          · simp [bad]
      · intro member
        rcases List.mem_cons.1 member with here | later
        · exact counts (.inl here.symm)
        · exact counts (.inr (counted later))

end ProxyRouting.Regex
