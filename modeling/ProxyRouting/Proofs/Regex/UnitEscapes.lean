import ProxyRouting.Proofs.Regex.Reading
import ProxyRouting.Proofs.Regex.Signs
import ProxyRouting.Proofs.Text.Digits
import ProxyRouting.Text.Units

/-!
UTF-16 in escapes. A source that escapes the units of a text one by one comes out as the characters of the text, each
by its code point; a source that escapes other units is refused at the first half of a pair that stands alone
(`engineSource_units`).
-/
namespace ProxyRouting.Regex

/-- At this place of the units stands half of a pair without the other; before it are the units of a text. -/
def LoneAt (units : List Nat) (i : Nat) : Prop :=
  ∃ front unit behind, units = Text.units front ++ unit :: behind ∧ Text.unitLength front = i ∧
    CodeSet.isSurrogate unit = true ∧ ¬ (unit < 0xDC00 ∧ ∃ low ∈ behind.head?, 0xDC00 ≤ low ∧ low ≤ 0xDFFF)

/-- The character that two halves stand for. -/
def pairChar (high low : Nat) : Char := Char.ofNat (0x10000 + (high - 0xD800) * 0x400 + (low - 0xDC00))

theorem charUnits_unit {unit : Nat} (small : unit < 0x10000) (whole : CodeSet.isSurrogate unit = false) :
    charUnits (Char.ofNat unit) = [unit] := by
  have bound : unit ≤ CodeSet.maxCode := Nat.le_trans (Nat.le_of_lt small) (by decide)
  simp [charUnits, CodeSet.toNat_ofNat bound whole, small]

theorem charUnits_pair {high low : Nat} (first : 0xD800 ≤ high ∧ high < 0xDC00)
    (second : 0xDC00 ≤ low ∧ low ≤ 0xDFFF) : charUnits (pairChar high low) = [high, low] := by
  have bound : 0x10000 + (high - 0xD800) * 0x400 + (low - 0xDC00) ≤ CodeSet.maxCode := by
    simp only [CodeSet.maxCode]
    omega
  have whole : CodeSet.isSurrogate (0x10000 + (high - 0xD800) * 0x400 + (low - 0xDC00)) = false :=
    isSurrogate_of_gt (by omega)
  have quotient : (0x10000 + (high - 0xD800) * 0x400 + (low - 0xDC00) - 0x10000) / 0x400 = high - 0xD800 := by omega
  have remainder : (0x10000 + (high - 0xD800) * 0x400 + (low - 0xDC00) - 0x10000) % 0x400 = low - 0xDC00 := by omega
  simp only [charUnits, pairChar, CodeSet.toNat_ofNat bound whole, quotient, remainder]
  rw [if_neg (by omega), Nat.add_sub_cancel' first.1, Nat.add_sub_cancel' second.1]

/-- A character is a unit that is no half of a pair, or a pair. -/
theorem charUnits_cases (c : Char) :
    (∃ unit, unit < 0x10000 ∧ CodeSet.isSurrogate unit = false ∧ charUnits c = [unit] ∧ c = Char.ofNat unit) ∨
      ∃ high low, (0xD800 ≤ high ∧ high < 0xDC00) ∧ (0xDC00 ≤ low ∧ low ≤ 0xDFFF) ∧ charUnits c = [high, low] ∧
        c = pairChar high low := by
  by_cases small : c.toNat < 0x10000
  · exact .inl ⟨c.toNat, small, isSurrogate_toNat c, by simp [charUnits, small], (Char.ofNat_toNat c).symm⟩
  · have bound : c.toNat ≤ 0x10FFFF := CodeSet.toNat_le c
    refine .inr ⟨0xD800 + (c.toNat - 0x10000) / 0x400, 0xDC00 + (c.toNat - 0x10000) % 0x400, ?_, ?_, ?_, ?_⟩
    · omega
    · omega
    · simp [charUnits, small]
    · have joined : 0x10000 + (0xD800 + (c.toNat - 0x10000) / 0x400 - 0xD800) * 0x400 +
          (0xDC00 + (c.toNat - 0x10000) % 0x400 - 0xDC00) = c.toNat := by omega
      rw [pairChar, joined, Char.ofNat_toNat]

/-- Units begin with those of a character or with half of a pair. -/
theorem units_begin {unit : Nat} (small : unit < 0x10000) (behind : List Nat) :
    (∃ c rest, unit :: behind = charUnits c ++ rest) ∨ LoneAt (unit :: behind) 0 := by
  cases half : CodeSet.isSurrogate unit with
  | false => exact .inl ⟨_, behind, by rw [charUnits_unit small half]; rfl⟩
  | true =>
    by_cases paired : unit < 0xDC00 ∧ ∃ low ∈ behind.head?, 0xDC00 ≤ low ∧ low ≤ 0xDFFF
    · obtain ⟨high, low, first, second⟩ := paired
      obtain ⟨rest, rfl⟩ := List.head?_eq_some_iff.1 first
      exact .inl ⟨_, rest, by rw [charUnits_pair ⟨(CodeSet.isSurrogate_iff.1 half).1, high⟩ second]; rfl⟩
    · exact .inr ⟨[], unit, behind, rfl, rfl, half, paired⟩

/-- Units are those of a text, or half of a pair stands alone among them. -/
theorem units_or_lone {units : List Nat} (small : ∀ unit ∈ units, unit < 0x10000) :
    (∃ t, Text.units t = units) ∨ ∃ i, LoneAt units i := by
  induction size : units.length using Nat.strongRecOn generalizing units with
  | ind n ih =>
    cases units with
    | nil => exact .inl ⟨[], rfl⟩
    | cons unit behind =>
      rcases units_begin (small unit (by simp)) behind with ⟨c, rest, whole⟩ | lone
      · have shorter : rest.length < n := by
          have one : 0 < (charUnits c).length := by
            rcases charUnits_cases c with ⟨_, _, _, same, _⟩ | ⟨_, _, _, _, same, _⟩ <;> rw [same] <;> simp
          rw [← size, whole, List.length_append]
          omega
        have others : ∀ unit ∈ rest, unit < 0x10000 := by
          intro unit member
          exact small unit (by rw [whole]; simp [member])
        rw [whole]
        rcases ih _ shorter others rfl with ⟨t, rfl⟩ | ⟨i, front, unit, behind, rfl, -, half, alone⟩
        · exact .inl ⟨c :: t, rfl⟩
        · refine .inr ⟨_, c :: front, unit, behind, ?_, rfl, half, alone⟩
          simp [Text.units]
      · exact .inr ⟨0, lone⟩

/-- The text is the escapes of the units one behind the other, in hexadecimal digits of either case. -/
inductive Escapes : List Nat → Text → Prop
  | nil : Escapes [] []
  | cons {unit : Nat} {units : List Nat} {digits t : Text} (small : unit < 0x10000)
      (spelled : Text.lower digits = Text.padZeros 4 (Text.hexLower unit)) (others : Escapes units t) :
      Escapes (unit :: units) ('\\' :: 'u' :: (digits ++ t))

theorem small_of_escapes {units : List Nat} {t : Text} (escapes : Escapes units t) :
    ∀ unit ∈ units, unit < 0x10000 := by
  induction escapes with
  | nil => simp
  | cons small spelled others ih => exact List.forall_mem_cons.2 ⟨small, ih⟩

section
variable {unit : Nat} {digits : Text} (small : unit < 0x10000)
  (spelled : Text.lower digits = Text.padZeros 4 (Text.hexLower unit))
include small spelled

theorem length_of_spelled : digits.length = 4 := by
  have width : (Text.lower digits).length = max 4 (Text.hexLower unit).length := by
    rw [spelled, Text.length_padZeros]
  have short : (Text.hexLower unit).length ≤ 4 := Text.length_hexLower_le small (by decide)
  rw [Text.lower, List.length_map] at width
  omega

theorem hexDigits?_of_spelled (t : Text) : Text.hexDigits? 4 (digits ++ t) = some (unit, t) := by
  refine Text.hexDigits?_append ?_ t
  have read := Text.hexDigits?_lower 4 digits
  rw [spelled, Text.hexDigits?_padZeros small (by decide)] at read
  obtain ⟨⟨n, rest⟩, found, same⟩ := Option.map_eq_some_iff.1 read.symm
  obtain ⟨rfl, lowered⟩ := Prod.mk.inj same
  have none : rest = [] := List.map_eq_nil_iff.1 lowered
  rw [found, none]
  rfl

/-- An escape is read as the character of its unit, joined with the low half behind a high one. -/
theorem readToken_unit (s : Source) (t : Text) : readToken s '\\' ('u' :: (digits ++ t)) =
    if CodeSet.isSurrogate (pairCode unit t).1 then .error (.invalidEscape (s.offset ('u' :: (digits ++ t)) - 1))
    else .ok (.code (Char.ofNat (pairCode unit t).1), (pairCode unit t).2) := by
  have code : escapeCode 'u' (digits ++ t) = pairCode unit t := by
    simp [escapeCode, lookup_controlCodes, controlLetter?, octalValue?, hexDigits?_of_spelled small spelled t]
  have letter : readToken s '\\' ('u' :: (digits ++ t)) =
      (charEscape (s.offset ('u' :: (digits ++ t)) - 1) 'u' (digits ++ t)).map (Prod.map .code id) := by
    simp only [readToken, readEscape, CodeSet.ofEscape?, backref?, Char.reduceEq, false_and, ↓reduceIte]
    cases charEscape (s.offset ('u' :: (digits ++ t)) - 1) 'u' (digits ++ t) <;> rfl
  rw [letter, charEscape_eq, code]
  cases CodeSet.isSurrogate (pairCode unit t).1 <;> rfl

end

theorem length_of_escapes {units : List Nat} {t : Text} (escapes : Escapes units t) : t.length = 6 * units.length := by
  induction escapes with
  | nil => rfl
  | cons small spelled others ih =>
    have four := length_of_spelled small spelled
    simp only [List.length_cons, List.length_append]
    omega

theorem lowHalf?_low {low : Nat} {units : List Nat} {t : Text} (escapes : Escapes (low :: units) t)
    (second : 0xDC00 ≤ low ∧ low ≤ 0xDFFF) : ∃ rest, Escapes units rest ∧ lowHalf? t = some (low, rest) := by
  cases escapes with
  | @cons _ _ digits rest small spelled others =>
    refine ⟨rest, others, ?_⟩
    rw [lowHalf?_unit, hexDigits?_of_spelled small spelled]
    simp [Option.filter, second]

theorem lowHalf?_other {units : List Nat} {t : Text} (escapes : Escapes units t)
    (other : ¬ ∃ low ∈ units.head?, 0xDC00 ≤ low ∧ low ≤ 0xDFFF) : lowHalf? t = none := by
  cases escapes with
  | nil => rfl
  | @cons unit _ digits rest small spelled others =>
    have outside : ¬ (0xDC00 ≤ unit ∧ unit ≤ 0xDFFF) := fun inside => other ⟨unit, rfl, inside⟩
    rw [lowHalf?_unit, hexDigits?_of_spelled small spelled]
    simpa [Option.filter] using outside

/-- A unit with no low half behind it, or that is no high half, stands for itself. -/
theorem pairCode_alone {unit : Nat} {units : List Nat} {t : Text} (escapes : Escapes units t)
    (alone : ¬ ((0xD800 ≤ unit ∧ unit < 0xDC00) ∧ ∃ low ∈ units.head?, 0xDC00 ≤ low ∧ low ≤ 0xDFFF)) :
    pairCode unit t = (unit, t) := by
  by_cases high : 0xD800 ≤ unit ∧ unit < 0xDC00
  · exact pairCode_unpaired (lowHalf?_other escapes fun low => alone ⟨high, low⟩) unit
  · exact pairCode_of_not_high high t

/-- The escapes of a character's units are read as the character. -/
theorem tokensFrom_char {c : Char} {units : List Nat} {t : Text} (escapes : Escapes (charUnits c ++ units) t) :
    ∃ rest, Escapes units rest ∧
      ∀ s depth, tokensFrom s depth t = (tokensFrom s depth rest).map (.code c :: ·) := by
  rcases charUnits_cases c with ⟨unit, -, whole, spelled, same⟩ | ⟨high, low, first, second, spelled, same⟩
  · rw [spelled] at escapes
    cases escapes with
    | @cons _ _ digits rest small spelled others =>
      have code : pairCode unit rest = (unit, rest) := by
        refine pairCode_alone others fun paired => ?_
        rw [CodeSet.isSurrogate_iff.2 (by omega)] at whole
        cases whole
      refine ⟨rest, others, fun s depth => tokensFrom_of_read ?_ rfl⟩
      rw [readToken_unit small spelled, code, same]
      simp [whole]
  · rw [spelled] at escapes
    cases escapes with
    | @cons _ _ digits behind small spelled others =>
      obtain ⟨rest, left, found⟩ := lowHalf?_low others second
      have code := pairCode_joined first found
      have whole : CodeSet.isSurrogate (0x10000 + (high - 0xD800) * 0x400 + (low - 0xDC00)) = false :=
        isSurrogate_of_gt (by omega)
      refine ⟨rest, left, fun s depth => tokensFrom_of_read ?_ rfl⟩
      rw [readToken_unit small spelled, code, same]
      simp [whole, pairChar]

/-- The escapes of a text's units are read as its characters. -/
theorem tokensFrom_units (front : Text) {units : List Nat} {t : Text}
    (escapes : Escapes (Text.units front ++ units) t) :
    ∃ rest, Escapes units rest ∧
      ∀ s depth, tokensFrom s depth t = (tokensFrom s depth rest).map (front.map .code ++ ·) := by
  induction front generalizing t with
  | nil =>
    refine ⟨t, escapes, fun s depth => ?_⟩
    cases tokensFrom s depth t <;> rfl
  | cons c front ih =>
    have whole : Text.units (c :: front) ++ units = charUnits c ++ (Text.units front ++ units) := by
      simp [Text.units]
    rw [whole] at escapes
    obtain ⟨behind, others, first⟩ := tokensFrom_char escapes
    obtain ⟨rest, left, later⟩ := ih others
    refine ⟨rest, left, fun s depth => ?_⟩
    rw [first, later]
    cases tokensFrom s depth rest <;> rfl

/-- Half of a pair that stands alone is not read. -/
theorem tokensFrom_lone {unit : Nat} {behind : List Nat} {t : Text} (escapes : Escapes (unit :: behind) t)
    (half : CodeSet.isSurrogate unit = true)
    (alone : ¬ (unit < 0xDC00 ∧ ∃ low ∈ behind.head?, 0xDC00 ≤ low ∧ low ≤ 0xDFFF)) (s : Source) (depth : Nat) :
    tokensFrom s depth t = .error (.invalidEscape (s.length - t.length)) := by
  cases escapes with
  | @cons _ _ digits rest small spelled others =>
    have code : pairCode unit rest = (unit, rest) := pairCode_alone others fun paired => alone ⟨paired.1.2, paired.2⟩
    rw [tokensFrom_cons, readToken_unit small spelled, code]
    simp only [half, ↓reduceIte, Source.offset, List.length_cons, Nat.sub_sub]

/-- A source that escapes units is accepted just if they are those of a text, and comes out as the text by code
    points. Else it is refused where the first half of a pair stands alone, each escape taking six characters. -/
theorem engineSource_units {units : List Nat} {source : Text} (escapes : Escapes units source) :
    ((∃ out, engineSource source = .ok out) ↔ ∃ t, Text.units t = units) ∧
      (∀ t, Text.units t = units → engineSource source = .ok (t.flatMap renderCode)) ∧
      ((¬ ∃ t, Text.units t = units) → ∃ i, LoneAt units i) ∧
      ∀ i, LoneAt units i → engineSource source = .error (.invalidEscape (6 * i)) := by
  have accepted : ∀ t, Text.units t = units → engineSource source = .ok (t.flatMap renderCode) := by
    rintro t rfl
    rw [← List.append_nil (Text.units t)] at escapes
    obtain ⟨rest, left, read⟩ := tokensFrom_units t escapes
    cases left
    have done : tokenize source = .ok (t.map .code) := by
      rw [tokenize, read, tokensFrom, if_pos rfl, Except.map, List.append_nil]
    rw [engineSource, done, Except.map, render, List.flatMap_map]
    rfl
  have refused : ∀ i, LoneAt units i → engineSource source = .error (.invalidEscape (6 * i)) := by
    rintro i ⟨front, unit, behind, rfl, rfl, half, alone⟩
    obtain ⟨rest, left, read⟩ := tokensFrom_units front escapes
    have offset : (Source.of source).length - rest.length = 6 * Text.unitLength front := by
      have total : (Source.of source).length = _ := length_of_escapes escapes
      rw [total, length_of_escapes left, List.length_append, Text.unitLength]
      omega
    rw [engineSource, tokenize, read, tokensFrom_lone left half alone, offset]
    rfl
  have lone (none : ¬ ∃ t, Text.units t = units) : ∃ i, LoneAt units i :=
    (units_or_lone (small_of_escapes escapes)).resolve_left none
  refine ⟨⟨?_, ?_⟩, accepted, lone, refused⟩
  · rintro ⟨out, done⟩
    by_contra none
    obtain ⟨i, found⟩ := lone none
    rw [refused i found] at done
    cases done
  · rintro ⟨t, same⟩
    exact ⟨_, accepted t same⟩

/-- A letter and a pair, in digits of either case, and a letter and half of a pair. -/
theorem engineSource_units_pair :
    engineSource "\\u0061\\uD83D\\uDe00".toList = .ok "\\x\x7b61\x7d\\x\x7b1F600\x7d".toList ∧
      engineSource "\\u0061\\ud83d".toList = .error (.invalidEscape 6) := by
  have pair : Escapes [0x61, 0xD83D, 0xDE00] "\\u0061\\uD83D\\uDe00".toList :=
    @Escapes.cons _ _ "0061".toList _ (by decide) (by decide) <|
      @Escapes.cons _ _ "D83D".toList _ (by decide) (by decide) <|
        @Escapes.cons _ _ "De00".toList _ (by decide) (by decide) .nil
  have half : Escapes [0x61, 0xD83D] "\\u0061\\ud83d".toList :=
    @Escapes.cons _ _ "0061".toList _ (by decide) (by decide) <|
      @Escapes.cons _ _ "d83d".toList _ (by decide) (by decide) .nil
  have units : Text.units ['a', Char.ofNat 0x1F600] = [0x61, 0xD83D, 0xDE00] := by decide
  have lone : LoneAt [0x61, 0xD83D] 1 := ⟨['a'], 0xD83D, [], by decide, by decide, by decide, by simp⟩
  exact ⟨(engineSource_units pair).2.1 _ units, (engineSource_units half).2.2.2 1 lone⟩

end ProxyRouting.Regex
