import ProxyRouting.Proofs.Regex.CodeSet
import ProxyRouting.Proofs.Regex.Lexeme
import ProxyRouting.Proofs.Regex.Reading

/-!
The reader of escapes and classes against the cut into signs. An escape has the code that the cut gives it, unless
that is half of a pair; a class is read to the bracket where the cut ends it, unless a sign is such a half or a range
is inverted (`classRead`).
-/
namespace ProxyRouting.Regex

theorem isSurrogate_of_lt {n : Nat} (small : n < 0xD800) : CodeSet.isSurrogate n = false := by
  simp only [CodeSet.isSurrogate, Bool.and_eq_false_iff, decide_eq_false_iff_not, Nat.not_le]
  exact .inl small

theorem isSurrogate_of_gt {n : Nat} (large : 0xDFFF < n) : CodeSet.isSurrogate n = false := by
  simp only [CodeSet.isSurrogate, Bool.and_eq_false_iff, decide_eq_false_iff_not, Nat.not_le]
  exact .inr large

theorem octalValue?_lt {c : Char} {digit : Nat} (read : octalValue? c = some digit) : digit < 8 := by
  unfold octalValue? at read
  split at read
  · next inside =>
    cases read
    have := UInt32.le_iff_toNat_le.1 (Char.le_def.1 inside.2)
    change c.toNat ≤ 55 at this
    omega
  · cases read

theorem octalTail_lt (count value bound : Nat) (t : Text) (small : value < bound) :
    (octalTail count value t).1 < bound * 8 ^ count := by
  induction count generalizing value bound t with
  | zero => simpa [octalTail] using small
  | succ count ih =>
    have grown : bound * 8 ^ (count + 1) = bound * 8 * 8 ^ count := by rw [Nat.pow_succ]; ac_rfl
    have more : bound ≤ bound * 8 ^ (count + 1) := Nat.le_mul_of_pos_right bound (Nat.pow_pos (by decide))
    cases t with
    | nil => rw [octalTail]; exact Nat.lt_of_lt_of_le small more
    | cons c t =>
      rw [octalTail]
      split
      · next digit read =>
        have := octalValue?_lt read
        rw [grown]
        exact ih _ _ t (by omega)
      · exact Nat.lt_of_lt_of_le small more

/-- An octal escape stands for one of the first characters. -/
theorem octalTail_small {c : Char} {digit : Nat} (read : octalValue? c = some digit) (t : Text) :
    (octalTail (if digit ≤ 3 then 2 else 1) digit t).1 < 0x200 := by
  have first := octalValue?_lt read
  split
  · exact octalTail_lt 2 digit 8 t first
  · exact Nat.lt_trans (octalTail_lt 1 digit 8 t first) (by decide)

theorem hexValue?_lt {c : Char} {digit : Nat} (read : Text.hexValue? c = some digit) : digit < 16 := by
  unfold Text.hexValue? at read
  split at read
  · next inside =>
    cases read
    simp only [Char.isDigit, Bool.and_eq_true, decide_eq_true_eq] at inside
    have := UInt32.le_iff_toNat_le.1 inside.2
    change c.toNat ≤ 57 at this
    omega
  · split at read
    · next inside =>
      cases read
      have := UInt32.le_iff_toNat_le.1 (Char.le_def.1 inside.2)
      change c.toNat ≤ 102 at this
      omega
    · split at read
      · next inside =>
        cases read
        have := UInt32.le_iff_toNat_le.1 (Char.le_def.1 inside.2)
        change c.toNat ≤ 70 at this
        omega
      · cases read

theorem hexDigits?_lt {count n : Nat} {t rest : Text} (read : Text.hexDigits? count t = some (n, rest)) :
    n < 16 ^ count := by
  have go : ∀ (count value bound : Nat) (t : Text), value < bound →
      Text.hexDigits?.go count value t = some (n, rest) → n < bound * 16 ^ count := by
    intro count
    induction count with
    | zero =>
      intro value bound t small h
      simp only [Text.hexDigits?.go, Option.some.injEq, Prod.mk.injEq] at h
      obtain ⟨rfl, _⟩ := h
      simpa using small
    | succ count ih =>
      intro value bound t small h
      cases t with
      | nil => simp [Text.hexDigits?.go] at h
      | cons c t =>
        obtain ⟨digit, value?, h⟩ := Option.bind_eq_some_iff.1 h
        have := hexValue?_lt value?
        have inner := ih _ (bound * 16) t (by omega) h
        rwa [Nat.pow_succ, Nat.mul_comm _ 16, ← Nat.mul_assoc]
  simpa using go count 0 1 t (by decide) read

theorem lowHalf?_bounds {t rest : Text} {low : Nat} (found : lowHalf? t = some (low, rest)) :
    0xDC00 ≤ low ∧ low ≤ 0xDFFF := by
  obtain ⟨u, _, digits⟩ := Option.bind_eq_some_iff.1 found
  simpa using (Option.filter_eq_some_iff.1 digits).2

/-- A joined pair is a character; a unit that joins nothing is itself. -/
theorem pairCode_lt {unit : Nat} (small : unit < 0x10000) (t : Text) : (pairCode unit t).1 < 0x110000 := by
  unfold pairCode
  split
  · next low rest found =>
    have := lowHalf?_bounds found
    split
    · next high => simp only; omega
    · simp only; omega
  · simp only; omega

theorem escapeCode_lt (c : Char) (t : Text) : (escapeCode c t).1 < 0x110000 := by
  have scalar (c : Char) : c.toNat < 0x110000 := by
    rcases c.valid with low | ⟨_, high⟩
    · exact Nat.lt_trans low (by decide)
    · exact high
  unfold escapeCode
  split
  · next code found =>
    rw [lookup_controlCodes] at found
    obtain ⟨control, -, rfl⟩ := Option.map_eq_some_iff.1 found
    exact scalar control
  · split
    · next read => exact Nat.lt_trans (octalTail_small read t) (by decide)
    · split
      · cases read : Text.hexDigits? 2 t with
        | none => exact scalar 'x'
        | some found => exact Nat.lt_trans (hexDigits?_lt read) (by decide)
      · split
        · split
          · next read => exact pairCode_lt (hexDigits?_lt read) _
          · exact scalar 'u'
        · split
          · split
            · split
              · exact Nat.lt_trans (Nat.mod_lt _ (by decide)) (by decide)
              · exact scalar '\\'
            · exact scalar '\\'
          · exact scalar c

/-! ## Escapes -/

theorem lowHalf?_unit (t : Text) : lowHalf? ('\\' :: 'u' :: t) =
    (Text.hexDigits? 4 t).filter fun found => 0xDC00 ≤ found.1 && found.1 ≤ 0xDFFF := by
  simp [lowHalf?, Text.dropLead?]

theorem lowHalf?_none {t : Text} (other : ¬ ∃ rest, t = '\\' :: 'u' :: rest) : lowHalf? t = none := by
  rw [lowHalf?, Option.bind_eq_none_iff]
  intro rest lead
  exact absurd ⟨rest, Text.dropLead?_eq_some.1 lead⟩ other

theorem pairCode_of_not_high {unit : Nat} (other : ¬ (0xD800 ≤ unit ∧ unit < 0xDC00)) (t : Text) :
    pairCode unit t = (unit, t) := by
  unfold pairCode
  split
  · exact if_neg other
  · rfl

theorem pairCode_unpaired {t : Text} (unpaired : lowHalf? t = none) (unit : Nat) : pairCode unit t = (unit, t) := by
  rw [pairCode, unpaired]

theorem pairCode_joined {high low : Nat} {t rest : Text} (first : 0xD800 ≤ high ∧ high < 0xDC00)
    (found : lowHalf? t = some (low, rest)) :
    pairCode high t = (0x10000 + (high - 0xD800) * 0x400 + (low - 0xDC00), rest) := by
  unfold pairCode
  split
  · next found' =>
    rw [found] at found'
    cases found'
    exact if_pos first
  · next none =>
    rw [found] at none
    cases none

/-- The unit of a high half is read together with the low half behind it, or not at all. -/
theorem unitChar?_high {unit : Nat} (half : CodeSet.isSurrogate unit = true) (high : unit < 0xDC00) (t : Text) :
    unitChar? unit t = (lowHalf? t).map fun found =>
      (Char.ofNat (0x10000 + (unit - 0xD800) * 0x400 + (found.1 - 0xDC00)), found.2) := by
  unfold unitChar?
  rw [if_pos half, if_pos high]
  split
  · next rest =>
    rw [lowHalf?_unit]
    cases Text.hexDigits? 4 rest with
    | none => rfl
    | some found =>
      by_cases low : 0xDC00 ≤ found.1 ∧ found.1 ≤ 0xDFFF
      · simp [Option.filter, low]
      · simp only [Option.filter, low, ↓reduceIte]
        rw [if_neg (by simpa using low)]
        rfl
  · next other => rw [lowHalf?_none (fun ⟨rest, same⟩ => other rest same)]; rfl

theorem unitChar?_eq (unit : Nat) (t : Text) : unitChar? unit t =
    if CodeSet.isSurrogate (pairCode unit t).1 then none
    else some (Char.ofNat (pairCode unit t).1, (pairCode unit t).2) := by
  by_cases half : CodeSet.isSurrogate unit = true
  · have bounds := CodeSet.isSurrogate_iff.1 half
    by_cases high : unit < 0xDC00
    · rw [unitChar?_high half high]
      cases found : lowHalf? t with
      | none => simp [pairCode_unpaired found, half]
      | some pair =>
        have joined : CodeSet.isSurrogate (0x10000 + (unit - 0xD800) * 0x400 + (pair.1 - 0xDC00)) = false :=
          isSurrogate_of_gt (by omega)
        simp [pairCode_joined ⟨bounds.1, high⟩ found, joined]
    · simp [unitChar?, pairCode_of_not_high fun inside => high inside.2, half, high]
  · have outside : ¬ (0xD800 ≤ unit ∧ unit < 0xDC00) := by
      intro inside
      exact half (CodeSet.isSurrogate_iff.2 (by omega))
    simp [unitChar?, pairCode_of_not_high outside, half]

theorem charEscape_eq (offset : Nat) (c : Char) (t : Text) : charEscape offset c t =
    if CodeSet.isSurrogate (escapeCode c t).1 then .error (.invalidEscape offset)
    else .ok (Char.ofNat (escapeCode c t).1, (escapeCode c t).2) := by
  unfold charEscape escapeCode
  rw [lookup_controlCodes]
  cases controlLetter? c with
  | some control => simp [isSurrogate_toNat]
  | none =>
    simp only [Option.map_none]
    cases octal : octalValue? c with
    | some digit =>
      have small : (octalTail (if digit ≤ 3 then 2 else 1) digit t).1 < 0xD800 :=
        Nat.lt_trans (octalTail_small octal t) (by decide)
      simp [isSurrogate_of_lt small]
    | none =>
      by_cases hex : c = 'x'
      · simp only [hex, ↓reduceIte]
        cases read : Text.hexDigits? 2 t with
        | none => rfl
        | some found =>
          have small : found.1 < 0xD800 := Nat.lt_trans (hexDigits?_lt read) (by decide)
          simp [isSurrogate_of_lt small]
      · by_cases unit : c = 'u'
        · simp only [unit, Char.reduceEq, ↓reduceIte]
          cases Text.hexDigits? 4 t with
          | none => rfl
          | some found =>
            simp only [unitChar?_eq]
            cases CodeSet.isSurrogate (pairCode found.1 found.2).1 <;> rfl
        · by_cases control : c = 'c'
          · simp only [control, Char.reduceEq, ↓reduceIte]
            cases t with
            | nil => rfl
            | cons letter rest =>
              have small : letter.toNat % 32 < 0xD800 := Nat.lt_trans (Nat.mod_lt _ (by decide)) (by decide)
              cases alpha : letter.isAlpha with
              | true => simp [alpha, isSurrogate_of_lt small]
              | false => simp [alpha]; rfl
          · simp [hex, unit, control, isSurrogate_toNat]

/-- The reader gets as far as `rest` if all is well, and stops otherwise. -/
def ReadsTo {α : Type} (fine : Prop) (rest : Text) (result : Except Fault (α × Text)) : Prop :=
  (fine ∧ ∃ a, result = .ok (a, rest)) ∨ (¬ fine ∧ ∃ fault, result = .error fault)

/-- What the reader of classes makes of a sign. -/
def Sign.atom : Sign → Atom
  | .raw c => .char c
  | .code n => .char (Char.ofNat n)
  | .set s => .set s

theorem readAtom_eq (offset : Nat) {c : Char} {t : Text} (inside : c = '\\' → t ≠ []) : readAtom offset c t =
    if (classSign c t).1.isHalf then .error (.invalidEscape offset)
    else .ok ((classSign c t).1.atom, (classSign c t).2) := by
  unfold readAtom classSign
  by_cases escape : c = '\\'
  · obtain ⟨d, rest, rfl⟩ := List.exists_cons_of_ne_nil (inside escape)
    simp only [escape, ↓reduceIte]
    cases CodeSet.ofEscape? d with
    | some s => rfl
    | none =>
      by_cases backspace : d = 'b'
      · simp only [backspace, ↓reduceIte]; rfl
      · simp only [backspace, ↓reduceIte, charEscape_eq, Prod.map_fst, Prod.map_snd, Sign.isHalf, Sign.atom, id_eq]
        cases CodeSet.isSurrogate (escapeCode d rest).1 <;> rfl
  · simp only [escape, ↓reduceIte]
    cases t <;> rfl

/-- The code of the character that an atom names. -/
def Atom.code? : Atom → Option Nat
  | .char c => some c.toNat
  | .set _ => none

/-- Away from lone halves a sign has the code of its character. -/
theorem code_atom {c : Char} {t : Text} (whole : (classSign c t).1.isHalf = false) :
    (classSign c t).1.atom.code? = (classSign c t).1.code? := by
  have bound {n : Nat} (made : (classSign c t).1 = .code n) : n ≤ CodeSet.maxCode := by
    unfold classSign at made
    split at made
    · cases made
    · next d rest =>
      split at made
      · split at made
        · cases made
        · split at made
          · cases made; decide
          · cases made; exact Nat.le_of_lt_succ (escapeCode_lt d rest)
      · cases made
  cases made : (classSign c t).1 with
  | raw d => rfl
  | code n =>
    rw [made] at whole
    simp only [Sign.code?, Sign.atom, Atom.code?, CodeSet.toNat_ofNat (bound made) whole]
  | set s => rfl

/-! ## Classes -/

theorem classSigns_nil : classSigns [] = none := by rw [classSigns]

theorem classSigns_cons {c : Char} (inside : c ≠ ']') (t : Text) : classSigns (c :: t) =
    (classSigns (classSign c t).2).map fun found => ((classSign c t).1 :: found.1, found.2) := by
  rw [classSigns, if_neg inside]

theorem classSigns_dash {d : Char} (inside : d ≠ ']') (t : Text) : classSigns ('-' :: d :: t) =
    (classSigns (classSign d t).2).map fun found => (.raw '-' :: (classSign d t).1 :: found.1, found.2) := by
  have dash : classSign '-' (d :: t) = (.raw '-', d :: t) := rfl
  rw [classSigns_cons (by decide), dash, classSigns_cons inside, Option.map_map]
  rfl

theorem eq_dash_of_classSign {c : Char} {t : Text} (dash : (classSign c t).1 = .raw '-') : c = '-' := by
  unfold classSign at dash
  split at dash
  · cases dash; rfl
  · split at dash
    · split at dash
      · cases dash
      · split at dash <;> cases dash
    · cases dash; rfl

/-- Where no dash and sign come first, the signs do not begin with a dash that has another behind it. -/
theorem classSigns_undashed {t rest : Text} {signs : List Sign} (undashed : ¬ Dashed t)
    (found : classSigns t = some (signs, rest)) (high : Sign) (more : List Sign) : signs ≠ .raw '-' :: high :: more := by
  rintro rfl
  cases t with
  | nil => rw [classSigns_nil] at found; cases found
  | cons c t =>
    by_cases closing : c = ']'
    · rw [classSigns, if_pos closing] at found
      cases found
    · rw [classSigns_cons closing] at found
      obtain ⟨⟨others, behind⟩, inner, same⟩ := Option.map_eq_some_iff.1 found
      obtain ⟨first, second⟩ := List.cons.inj (Prod.mk.inj same).1
      obtain rfl := eq_dash_of_classSign first
      cases t with
      | nil => rw [show (classSign '-' []).2 = [] from rfl, classSigns_nil] at inner; cases inner
      | cons d t =>
        have closes : d = ']' := by
          by_contra inside
          exact undashed ⟨d, t, rfl, inside⟩
        rw [show (classSign '-' (d :: t)).2 = d :: t from rfl, classSigns, if_pos closes] at inner
        cases inner
        cases second

theorem anyInverted_undashed {t rest : Text} {signs : List Sign} (first : Sign) (undashed : ¬ Dashed t)
    (found : classSigns t = some (signs, rest)) : anyInverted (first :: signs) = anyInverted signs := by
  have apart := classSigns_undashed undashed found
  match signs with
  | [] => rfl
  | [second] => rfl
  | second :: high :: more =>
    have single : second ≠ .raw '-' := fun same => apart high more (by rw [same])
    rw [anyInverted, if_neg single]

theorem dashItem_readsTo (offset : Nat) {low high : Sign} (one : low.atom.code? = low.code?)
    (two : high.atom.code? = high.code?) :
    (isInverted low high = false ∧ ∃ item, dashItem offset low.atom high.atom = .ok item) ∨
      (isInverted low high = true ∧ ∃ fault, dashItem offset low.atom high.atom = .error fault) := by
  unfold isInverted dashItem
  rw [← one, ← two]
  cases low.atom with
  | set s => exact .inl ⟨rfl, _, rfl⟩
  | char a =>
    cases high.atom with
    | set s => exact .inl ⟨rfl, _, rfl⟩
    | char b =>
      have order : b < a ↔ b.toNat < a.toNat := Iff.rfl
      by_cases inverted : b < a
      · exact .inr ⟨by simpa [Atom.code?] using order.1 inverted, by simp [inverted]⟩
      · exact .inl ⟨by simpa [Atom.code?] using fun less => inverted (order.2 less), by simp [inverted]⟩

section
variable (total : Nat) {c : Char} {t : Text}

theorem readItem_half (half : (classSign c t).1.isHalf = true) : ∃ fault, readItem total c t = .error fault := by
  have more : c = '\\' → t ≠ [] := by
    rintro rfl rfl
    cases half
  refine ⟨.invalidEscape (total - t.length - 1), readItem_of_refused ?_⟩
  rw [readAtom_eq _ more, if_pos half]

theorem readItem_undashed (more : c = '\\' → t ≠ []) (whole : (classSign c t).1.isHalf = false)
    (undashed : ¬ Dashed (classSign c t).2) :
    readItem total c t = .ok (.one (classSign c t).1.atom, (classSign c t).2) := by
  refine readItem_of_undashed ?_ undashed
  simp only [readAtom_eq _ more, whole, Bool.false_eq_true, ↓reduceIte]

theorem readItem_dashed (more : c = '\\' → t ≠ []) (whole : (classSign c t).1.isHalf = false) {d : Char} {rest : Text}
    (dashed : (classSign c t).2 = '-' :: d :: rest) (inside : d ≠ ']') (more' : d = '\\' → rest ≠ []) :
    ReadsTo ((classSign d rest).1.isHalf = false ∧ isInverted (classSign c t).1 (classSign d rest).1 = false)
      (classSign d rest).2 (readItem total c t) := by
  unfold readItem
  simp only [readAtom_eq _ more, whole, dashed, inside, readAtom_eq _ more', Bool.false_eq_true, ↓reduceIte]
  cases second : (classSign d rest).1.isHalf with
  | true => exact .inr ⟨by simp, _, rfl⟩
  | false =>
    simp only [Bool.false_eq_true, ↓reduceIte]
    rcases dashItem_readsTo (total - t.length - 1) (code_atom whole) (code_atom second) with
      ⟨ascending, item, made⟩ | ⟨inverted, fault, refused⟩
    · rw [made]
      exact .inl ⟨⟨trivial, ascending⟩, item, rfl⟩
    · rw [refused]
      exact .inr ⟨by simp [inverted], fault, rfl⟩

end

/-- Nothing is wrong with the signs of a class. -/
def SignsFine (signs : List Sign) : Prop := (∀ s ∈ signs, s.isHalf = false) ∧ anyInverted signs = false

theorem signsFine_undashed {t rest : Text} {signs : List Sign} {first : Sign} (undashed : ¬ Dashed t)
    (found : classSigns t = some (signs, rest)) (whole : first.isHalf = false) :
    SignsFine (first :: signs) ↔ SignsFine signs := by
  rw [SignsFine, anyInverted_undashed first undashed found, SignsFine, List.forall_mem_cons]
  simp [whole]

theorem signsFine_dashed (low high : Sign) (signs : List Sign) : SignsFine (low :: .raw '-' :: high :: signs) ↔
    (low.isHalf = false ∧ high.isHalf = false ∧ isInverted low high = false) ∧ SignsFine signs := by
  simp only [SignsFine, List.forall_mem_cons, anyInverted, ↓reduceIte, Bool.or_eq_false_iff]
  have dash : (Sign.raw '-').isHalf = false := rfl
  tauto

/-- The class that begins a text is read to its closing bracket if nothing is wrong with its signs. -/
def ClassRead (total : Nat) (t : Text) : Prop :=
  match classSigns t with
  | some (signs, rest) => ReadsTo (SignsFine signs) rest (readItems total t)
  | none => ∃ fault, readItems total t = .error fault

section
variable {total : Nat} {c : Char} {t : Text}

theorem classRead_unclosed (inside : c ≠ ']') (unclosed : classSigns (c :: t) = none)
    (refused : ∃ fault, readItem total c t = .error fault) : ClassRead total (c :: t) := by
  obtain ⟨fault, refused⟩ := refused
  rw [ClassRead, unclosed]
  exact ⟨fault, by rw [readItems_cons inside, refused]⟩

/-- An item and the class behind it. -/
theorem classRead_cons (inside : c ≠ ']') (front : List Sign) {rest : Text} (fine : Prop)
    (cut : classSigns (c :: t) = (classSigns rest).map fun found => (front ++ found.1, found.2))
    (first : ReadsTo fine rest (readItem total c t))
    (both : ∀ signs behind, classSigns rest = some (signs, behind) →
      (SignsFine (front ++ signs) ↔ fine ∧ SignsFine signs))
    (others : ClassRead total rest) : ClassRead total (c :: t) := by
  rw [ClassRead, cut, readItems_cons inside]
  rw [ClassRead] at others
  rcases first with ⟨good, item, read⟩ | ⟨bad, fault, refused⟩
  · rw [read]
    cases found : classSigns rest with
    | none =>
      rw [found] at others
      obtain ⟨fault, refused⟩ := others
      exact ⟨fault, by simp only [refused]⟩
    | some pair =>
      obtain ⟨signs, behind⟩ := pair
      rw [found] at others
      have whole := both signs behind found
      rcases others with ⟨goods, items, inner⟩ | ⟨bads, fault, refused⟩
      · exact .inl ⟨whole.2 ⟨good, goods⟩, item :: items, by simp only [inner]⟩
      · exact .inr ⟨fun fine => bads (whole.1 fine).2, fault, by simp only [refused]⟩
  · rw [refused]
    cases found : classSigns rest with
    | none => exact ⟨fault, rfl⟩
    | some pair => exact .inr ⟨fun fine => bad ((both pair.1 pair.2 found).1 fine).1, fault, rfl⟩

theorem readItem_dashed_dangling (total : Nat) (more : c = '\\' → t ≠ []) (dashed : (classSign c t).2 = ['-', '\\']) :
    ∃ fault, readItem total c t = .error fault := by
  unfold readItem
  simp only [readAtom_eq _ more, dashed]
  cases (classSign c t).1.isHalf with
  | true => exact ⟨_, rfl⟩
  | false => exact ⟨_, rfl⟩

end

theorem classRead (total : Nat) (t : Text) : ClassRead total t := by
  induction size : t.length using Nat.strongRecOn generalizing t with
  | ind n ih =>
    cases t with
    | nil =>
      rw [ClassRead, classSigns_nil, readItems]
      exact ⟨_, rfl⟩
    | cons c t =>
      have shorter := (classSign_suffix c t).length_le
      have others : ClassRead total (classSign c t).2 := ih _ (by simp at size; omega) _ rfl
      by_cases closing : c = ']'
      · rw [ClassRead, classSigns, readItems, if_pos closing, if_pos closing]
        exact .inl ⟨⟨by simp, rfl⟩, [], rfl⟩
      · by_cases lone : c = '\\' ∧ t = []
        · obtain ⟨rfl, rfl⟩ := lone
          have unclosed : classSigns ['\\'] = none := by
            rw [classSigns_cons closing, show (classSign '\\' []).2 = [] from rfl, classSigns_nil]
            rfl
          exact classRead_unclosed closing unclosed ⟨_, rfl⟩
        · have more : c = '\\' → t ≠ [] := fun escape none => lone ⟨escape, none⟩
          cases half : (classSign c t).1.isHalf with
          | true =>
            refine classRead_cons closing [(classSign c t).1] False
              (classSigns_cons closing t) (.inr ⟨not_false, readItem_half total half⟩) ?_ others
            intro signs behind _
            simp [SignsFine, half]
          | false =>
            by_cases dashed : Dashed (classSign c t).2
            · obtain ⟨d, rest, dash, inside⟩ := dashed
              have cut : classSigns (c :: t) = (classSigns (classSign d rest).2).map fun found =>
                  ([(classSign c t).1, .raw '-', (classSign d rest).1] ++ found.1, found.2) := by
                rw [classSigns_cons closing, dash, classSigns_dash inside, Option.map_map]
                rfl
              by_cases lone' : d = '\\' ∧ rest = []
              · obtain ⟨rfl, rfl⟩ := lone'
                rw [show (classSign '\\' []).2 = [] from rfl, classSigns_nil] at cut
                exact classRead_unclosed closing cut (readItem_dashed_dangling total more dash)
              · have more' : d = '\\' → rest ≠ [] := fun escape none => lone' ⟨escape, none⟩
                have shorter' := (classSign_suffix d rest).length_le
                rw [dash] at shorter
                refine classRead_cons closing _ _ cut (readItem_dashed total more half dash inside more') ?_
                  (ih _ (by simp at size shorter; omega) _ rfl)
                intro signs behind _
                simp [signsFine_dashed, half]
            · refine classRead_cons closing [(classSign c t).1] True
                (classSigns_cons closing t) (.inl ⟨trivial, _, readItem_undashed total more half dashed⟩) ?_ others
              intro signs behind found
              simpa using signsFine_undashed dashed found half

end ProxyRouting.Regex
