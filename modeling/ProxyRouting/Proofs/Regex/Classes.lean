import ProxyRouting.Proofs.Regex.ClassText
import ProxyRouting.Proofs.Regex.Signs

/-!
What bracket classes stand for. A class lists characters and sets; a dash between two characters takes all from the
one to the other, next to a set it is listed itself; a caret at the front takes the characters that are not listed.
Whatever the order of the signs and however they overlap, the ranges that a class is spelled with, and the text that
spells them, have just the characters for members that it stands for (`oneOf_bracket`).
-/
namespace ProxyRouting.Regex

/-- White space and line terminators, one by one. -/
def blankChars : Text :=
  ("\t\n\x0b\x0c\r \u00a0\u1680\u2000\u2001\u2002\u2003\u2004\u2005\u2006\u2007\u2008\u2009\u200a" ++
    "\u2028\u2029\u202f\u205f\u3000\ufeff").toList

/-- The character is one of those that a backslash and the letter stand for. -/
def inEscape (letter c : Char) : Bool :=
  match letter with
  | 'd' => c.isDigit
  | 'D' => !c.isDigit
  | 'w' => c.isAlphanum || c == '_'
  | 'W' => !(c.isAlphanum || c == '_')
  | 's' => c ∈ blankChars
  | 'S' => c ∉ blankChars
  | _ => false

/-- The character is what the sign stands for, or one of its set. -/
def Sign.Means (c : Char) : Sign → Prop
  | .raw d => c = d
  | .code n => c.toNat = n
  | .set s => ∃ letter, CodeSet.ofEscape? letter = some s ∧ inEscape letter c = true

/-- What two signs with a dash between them stand for: the characters from the one to the other, or, where one of
    them is a set, either sign and the dash. -/
def Sign.Joins (low high : Sign) (c : Char) : Prop :=
  match low.code?, high.code? with
  | some a, some b => a ≤ c.toNat ∧ c.toNat ≤ b
  | _, _ => low.Means c ∨ c = '-' ∨ high.Means c

/-- The character is one of those that the signs of a class list. -/
def Listed (c : Char) : List Sign → Prop
  | low :: dash :: high :: signs =>
    if dash = .raw '-' then low.Joins high c ∨ Listed c signs else low.Means c ∨ Listed c (dash :: high :: signs)
  | signs => ∃ s ∈ signs, s.Means c

theorem listed_dash {c : Char} {low high : Sign} {signs : List Sign} :
    Listed c (low :: .raw '-' :: high :: signs) ↔ low.Joins high c ∨ Listed c signs := by
  rw [Listed, if_pos rfl]

theorem listed_cons {c : Char} {sign : Sign} {signs : List Sign}
    (apart : ∀ high more, signs ≠ .raw '-' :: high :: more) :
    Listed c (sign :: signs) ↔ sign.Means c ∨ Listed c signs := by
  match signs with
  | [] => simp [Listed]
  | [second] => simp [Listed]
  | dash :: high :: more =>
    have single : dash ≠ .raw '-' := fun same => apart high more (by rw [same])
    rw [Listed, if_neg single]

theorem contains_digits {c : Char} : CodeSet.contains CodeSet.digits c.toNat = true ↔ c.isDigit = true := by
  rw [Char.isDigit_iff_toNat]
  simp [CodeSet.contains, CodeSet.digits]

theorem contains_wordChars {c : Char} :
    CodeSet.contains CodeSet.wordChars c.toNat = true ↔ (c.isAlphanum || c == '_') = true := by
  have upper : c.isUpper = true ↔ 65 ≤ c.toNat ∧ c.toNat ≤ 90 := by
    have bounds : c.isUpper = true ↔ 'A'.val ≤ c.val ∧ c.val ≤ 'Z'.val := decide_eq_true_iff
    rw [bounds, UInt32.le_iff_toNat_le, UInt32.le_iff_toNat_le]
    rfl
  have lower : c.isLower = true ↔ 97 ≤ c.toNat ∧ c.toNat ≤ 122 := by
    have bounds : c.isLower = true ↔ 'a'.val ≤ c.val ∧ c.val ≤ 'z'.val :=
      Bool.and_eq_true_iff.trans (and_congr decide_eq_true_iff decide_eq_true_iff)
    rw [bounds, UInt32.le_iff_toNat_le, UInt32.le_iff_toNat_le]
    rfl
  have digit : c.isDigit = true ↔ 48 ≤ c.toNat ∧ c.toNat ≤ 57 := Char.isDigit_iff_toNat
  have underscore : c = '_' ↔ c.toNat = 95 := Char.toNat_inj.symm
  have word : (c.isAlphanum || c == '_') = (c.isUpper || c.isLower || c.isDigit || c == '_') := rfl
  rw [word]
  simp only [CodeSet.contains, CodeSet.wordChars, List.any_cons, List.any_nil, Bool.or_eq_true, Bool.and_eq_true,
    decide_eq_true_eq, upper, lower, digit, beq_iff_eq, underscore, Bool.false_eq_true, or_false]
  omega

theorem contains_spaces {c : Char} : CodeSet.contains CodeSet.spaces c.toNat = true ↔ c ∈ blankChars := by
  have codes : c ∈ blankChars ↔ c.toNat ∈ blankChars.map Char.toNat :=
    (List.mem_map_of_injective fun _ _ => Char.toNat_inj.1).symm
  have listed : blankChars.map Char.toNat = [9, 10, 11, 12, 13, 32, 0xA0, 0x1680, 0x2000, 0x2001, 0x2002, 0x2003, 0x2004,
    0x2005, 0x2006, 0x2007, 0x2008, 0x2009, 0x200A, 0x2028, 0x2029, 0x202F, 0x205F, 0x3000, 0xFEFF] := by decide
  rw [codes, listed]
  simp only [CodeSet.contains, CodeSet.spaces, List.any_cons, List.any_nil, Bool.or_eq_true, Bool.and_eq_true,
    decide_eq_true_eq, List.mem_cons, List.not_mem_nil, Bool.false_eq_true, or_false]
  omega

/-- The set of an escape has for members the characters that the escape stands for. -/
theorem contains_ofEscape? {letter : Char} {set : CodeSet} (found : CodeSet.ofEscape? letter = some set) (c : Char) :
    CodeSet.contains set c.toNat = true ↔ inEscape letter c = true := by
  have others {set : CodeSet} (valid : set.Valid) :
      CodeSet.contains set.complement c.toNat = true ↔ ¬ CodeSet.contains set c.toNat = true := by
    rw [CodeSet.contains_complement valid]
    simp [CodeSet.toNat_le c]
  unfold CodeSet.ofEscape? at found
  split at found <;> cases found
  · exact contains_digits
  · rw [others (CodeSet.valid_ofEscape? (c := 'd') rfl), contains_digits, inEscape, Bool.not_eq_true']
    simp
  · exact contains_wordChars
  · rw [others (CodeSet.valid_ofEscape? (c := 'w') rfl), contains_wordChars, inEscape]
    simp
  · rw [contains_spaces, inEscape, decide_eq_true_eq]
  · rw [others (CodeSet.valid_ofEscape? (c := 's') rfl), contains_spaces, inEscape, decide_eq_true_eq]

section
variable {c : Char} {t : Text}

theorem letter_of_classSign {s : CodeSet} (made : (classSign c t).1 = .set s) :
    ∃ letter, CodeSet.ofEscape? letter = some s := by
  unfold classSign at made
  split at made
  · cases made
  · next d rest =>
    split at made
    · split at made
      · next found => cases made; exact ⟨d, found⟩
      · split at made <;> cases made
    · cases made

/-- What the reader takes a sign for has for members what the sign stands for. -/
theorem contains_atom (whole : (classSign c t).1.isHalf = false) (d : Char) :
    CodeSet.contains (classSign c t).1.atom.codes d.toNat = true ↔ (classSign c t).1.Means d := by
  have code := code_atom whole
  cases made : (classSign c t).1 with
  | raw e =>
    have order : e.toNat ≤ d.toNat ∧ d.toNat ≤ e.toNat ↔ d = e := by
      rw [← Char.toNat_inj]
      omega
    simpa [CodeSet.contains, Sign.atom, Atom.codes, Sign.Means] using order
  | code n =>
    rw [made] at code
    have same : (Char.ofNat n).toNat = n := Option.some.inj code
    simp only [CodeSet.contains, Sign.atom, Atom.codes, Sign.Means, List.any_cons, List.any_nil, Bool.or_false,
      Bool.and_eq_true, decide_eq_true_eq, same]
    omega
  | set s =>
    constructor
    · intro member
      obtain ⟨letter, found⟩ := letter_of_classSign made
      exact ⟨letter, found, (contains_ofEscape? found d).1 member⟩
    · rintro ⟨letter, found, member⟩
      exact (contains_ofEscape? found d).2 member

/-- Two signs with a dash between them make an item of what they stand for. -/
theorem contains_dashItem {offset : Nat} {c' : Char} {t' : Text} {item : ClassItem}
    (whole : (classSign c t).1.isHalf = false) (whole' : (classSign c' t').1.isHalf = false)
    (made : dashItem offset (classSign c t).1.atom (classSign c' t').1.atom = .ok item) (d : Char) :
    CodeSet.contains item.codes d.toNat = true ↔ (classSign c t).1.Joins (classSign c' t').1 d := by
  have low := contains_atom whole d
  have high := contains_atom whole' d
  have dash : CodeSet.contains [⟨'-'.toNat, '-'.toNat⟩] d.toNat = true ↔ d = '-' := by
    rw [← Char.toNat_inj, CodeSet.contains_cons]
    simp only [CodeSet.contains, List.any_nil, Bool.false_eq_true, or_false]
    omega
  rw [Sign.Joins, ← code_atom whole, ← code_atom whole', ← low, ← high]
  generalize (classSign c t).1.atom = a, (classSign c' t').1.atom = b at made
  unfold dashItem at made
  split at made
  · split at made
    · cases made
    · cases made
      simp [CodeSet.contains, ClassItem.codes, Atom.code?]
  · next other =>
    cases made
    have joined : CodeSet.contains (ClassItem.dashed a b).codes d.toNat = true ↔
        CodeSet.contains a.codes d.toNat = true ∨ d = '-' ∨ CodeSet.contains b.codes d.toNat = true := by
      rw [ClassItem.codes, CodeSet.contains_append, CodeSet.contains_append, dash, or_assoc]
    rw [joined]
    cases a with
    | set s => rfl
    | char e =>
      cases b with
      | set s => rfl
      | char f => exact absurd rfl (other e f rfl)

/-- An item is a sign alone, or two signs with a dash between them, neither half of a pair. -/
theorem readItem_cases {total : Nat} {item : ClassItem} {rest : Text} (read : readItem total c t = .ok (item, rest)) :
    (classSign c t).1.isHalf = false ∧
      ((¬ Dashed (classSign c t).2 ∧ item = .one (classSign c t).1.atom ∧ rest = (classSign c t).2) ∨
        ∃ d u offset, (classSign c t).2 = '-' :: d :: u ∧ d ≠ ']' ∧ (classSign d u).1.isHalf = false ∧
          rest = (classSign d u).2 ∧ dashItem offset (classSign c t).1.atom (classSign d u).1.atom = .ok item) := by
  have more : c = '\\' → t ≠ [] := by
    rintro rfl rfl
    cases read
  have whole : (classSign c t).1.isHalf = false := by
    rw [Bool.eq_false_iff]
    intro half
    obtain ⟨fault, refused⟩ := readItem_half total half
    rw [refused] at read
    cases read
  refine ⟨whole, ?_⟩
  by_cases dashed : Dashed (classSign c t).2
  · obtain ⟨d, u, dash, inside⟩ := dashed
    have more' : d = '\\' → u ≠ [] := by
      rintro rfl rfl
      obtain ⟨fault, refused⟩ := readItem_dashed_dangling total more dash
      rw [refused] at read
      cases read
    unfold readItem at read
    simp only [readAtom_eq _ more, whole, dash, inside, readAtom_eq _ more', Bool.false_eq_true, ↓reduceIte] at read
    cases whole' : (classSign d u).1.isHalf with
    | true =>
      rw [whole'] at read
      cases read
    | false =>
      simp only [whole', Bool.false_eq_true, ↓reduceIte] at read
      split at read
      · cases read
      · next made =>
        cases read
        exact .inr ⟨d, u, _, dash, inside, whole', rfl, made⟩
  · rw [readItem_undashed total more whole dashed] at read
    cases read
    exact .inl ⟨dashed, rfl, rfl⟩

end

/-- The items of a class have for members what its signs list. -/
theorem listed_readItems {total : Nat} {t rest : Text} {items : List ClassItem}
    (read : readItems total t = .ok (items, rest)) : ∃ signs, classSigns t = some (signs, rest) ∧
      ∀ d : Char, CodeSet.contains (items.flatMap ClassItem.codes) d.toNat = true ↔ Listed d signs := by
  fun_induction readItems total t generalizing items rest with
  | case1 => cases read
  | case2 t =>
    cases read
    exact ⟨[], by rw [classSigns, if_pos rfl], by simp [CodeSet.contains, Listed]⟩
  | case3 => cases read
  | case4 => cases read
  | case5 c t inside item rest' found items' rest'' inner ih =>
    cases read
    obtain ⟨signs, cut, same⟩ := ih inner
    obtain ⟨whole, ⟨undashed, rfl, rfl⟩ | ⟨d, u, offset, dash, inside', whole', rfl, made⟩⟩ := readItem_cases found
    · refine ⟨(classSign c t).1 :: signs, by rw [classSigns_cons inside, cut]; rfl, fun e => ?_⟩
      rw [List.flatMap_cons, CodeSet.contains_append, same, listed_cons (classSigns_undashed undashed cut)]
      exact or_congr (contains_atom whole e) Iff.rfl
    · refine ⟨(classSign c t).1 :: .raw '-' :: (classSign d u).1 :: signs, ?_, fun e => ?_⟩
      · rw [classSigns_cons inside, dash, classSigns_dash inside', cut]
        rfl
      · rw [List.flatMap_cons, CodeSet.contains_append, same, listed_dash]
        exact or_congr (contains_dashItem whole whole' made e) Iff.rfl

/-- A class is spelled with ranges that have just the characters it stands for: those its signs list, or, behind a
    caret, all others. The text that comes out lists these characters and no others. -/
theorem oneOf_bracket {s : Source} {t rest : Text} {token : Token} (read : readToken s '[' t = .ok (token, rest)) :
    ∃ ranges signs, token = .oneOf ranges ∧
      classSigns (if t.head? = some '^' then t.tail else t) = some (signs, rest) ∧
      ∀ c : Char, ((∃ r ∈ ranges, r.first ≤ c ∧ c ≤ r.last) ↔
          if t.head? = some '^' then ¬ Listed c signs else Listed c signs) ∧
        ∃ has, classHas? token.render c = some has ∧
          (has = true ↔ if t.head? = some '^' then ¬ Listed c signs else Listed c signs) := by
  cases inner : readClass s.length t with
  | error fault =>
    have refused : readToken s '[' t = .error fault := by simp [readToken, inner]
    rw [refused] at read
    cases read
  | ok found =>
    obtain ⟨⟨negated, items⟩, rest'⟩ := found
    have accepted : readToken s '[' t = .ok (.oneOf (CodeSet.scalars (classCodes negated items)), rest') := by
      simp [readToken, inner]
    rw [accepted] at read
    cases read
    obtain ⟨listed, caret⟩ := readItems_of_readClass inner
    obtain ⟨signs, cut, same⟩ := listed_readItems listed
    have valid := valid_readItems listed
    refine ⟨_, signs, rfl, cut, fun c => ?_⟩
    have members : (∃ r ∈ (classCodes negated items).scalars, r.contains c = true) ↔
        if t.head? = some '^' then ¬ Listed c signs else Listed c signs := by
      rw [contains_scalars_classCodes valid, same, caret]
      by_cases negative : t.head? = some '^' <;> simp [negative]
    refine ⟨?_, _, classHas?_scalars (valid_classCodes valid) c, ?_⟩
    · simpa only [CharRange.contains, Bool.and_eq_true, decide_eq_true_eq] using members
    · rw [← CodeSet.contains_scalars (valid_classCodes valid), members]

/-- A set that is negated itself, in a negated class, with a dash next to it. -/
theorem oneOf_bracket_negated :
    readToken (.of "[^\\W-x]".toList) '[' "^\\W-x]".toList =
        .ok (.oneOf [⟨'0', '9'⟩, ⟨'A', 'Z'⟩, ⟨'_', '_'⟩, ⟨'a', 'w'⟩, ⟨'y', 'z'⟩], []) ∧
      ∀ c : Char, ((∃ r ∈ [⟨'0', '9'⟩, ⟨'A', 'Z'⟩, ⟨'_', '_'⟩, ⟨'a', 'w'⟩, CharRange.mk 'y' 'z'],
            r.first ≤ c ∧ c ≤ r.last) ↔
          ¬ Listed c [.set CodeSet.wordChars.complement, .raw '-', .raw 'x']) ∧
        ∃ has, classHas? (Token.oneOf [⟨'0', '9'⟩, ⟨'A', 'Z'⟩, ⟨'_', '_'⟩, ⟨'a', 'w'⟩, ⟨'y', 'z'⟩]).render c = some has ∧
          (has = true ↔ ¬ Listed c [.set CodeSet.wordChars.complement, .raw '-', .raw 'x']) := by
  have read : readToken (.of "[^\\W-x]".toList) '[' "^\\W-x]".toList =
      .ok (.oneOf [⟨'0', '9'⟩, ⟨'A', 'Z'⟩, ⟨'_', '_'⟩, ⟨'a', 'w'⟩, ⟨'y', 'z'⟩], []) := by
    simp [readToken, readClass, readItems_cons, readItems, readItem, readAtom, dashItem, CodeSet.ofEscape?]
    decide
  have cut : classSigns "\\W-x]".toList = some ([.set CodeSet.wordChars.complement, .raw '-', .raw 'x'], []) := by
    simp [classSigns, classSign, CodeSet.ofEscape?]
  refine ⟨read, ?_⟩
  obtain ⟨ranges, signs, same, listed, members⟩ := oneOf_bracket read
  cases same
  obtain ⟨rfl, -⟩ := Prod.mk.inj (Option.some.inj (cut.symm.trans listed))
  exact members

end ProxyRouting.Regex
