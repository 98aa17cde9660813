import ProxyRouting.Json.Reader
import ProxyRouting.Proofs.Text.Digits
import ProxyRouting.Text.Quoted

/-!
Quoted texts read back: whatever characters a text has, the string that quotes it is read as that text, up to its
closing quote (`readString_quoted`).
-/
namespace ProxyRouting.Json

theorem readString_close (t : Text) : readString ('"' :: t) = .ok ([], t) := by
  rw [readString, if_pos rfl]

theorem readString_raw {c : Char} (noQuote : c ≠ '"') (noEscape : c ≠ '\\') (printable : ¬ c.toNat < 0x20) (t : Text) :
    readString (c :: t) = (readString t).map fun found => (c :: found.1, found.2) := by
  rw [readString, if_neg noQuote, if_neg noEscape, if_neg printable]
  cases readString t <;> rfl

theorem readString_escape {d : Char} {t rest : Text} (read : readEscape t = .ok (d, rest)) :
    readString ('\\' :: t) = (readString rest).map fun found => (d :: found.1, found.2) := by
  rw [readString, if_neg (by decide), if_pos rfl]
  split
  · next refused => rw [read] at refused; cases refused
  · next same =>
    rw [read] at same
    cases same
    cases readString rest <;> rfl

/-- The control characters that no letter stands for are escaped by their code. -/
theorem readEscape_control {n : Nat} (control : n < 0x20) (t : Text) :
    readEscape ('u' :: Text.padZeros 4 (Text.hexLower n) ++ t) = .ok (Char.ofNat n, t) := by
  have digits : Text.hexDigits? 4 (Text.padZeros 4 (Text.hexLower n)) = some (n, []) :=
    Text.hexDigits?_padZeros (by omega) (by decide)
  have unit : readUnit (Text.padZeros 4 (Text.hexLower n) ++ t) = .ok (n, t) := by
    rw [readUnit, Text.hexDigits?_append digits]
  have scalar : n < 0xD800 ∨ 0xDFFF < n := by omega
  show readUnicode (Text.padZeros 4 (Text.hexLower n) ++ t) = _
  simp only [readUnicode, unit, if_pos scalar]

theorem readString_char (c : Char) (t : Text) :
    readString (Text.escapeChar c ++ t) = (readString t).map fun found => (c :: found.1, found.2) := by
  unfold Text.escapeChar
  split
  · exact readString_escape rfl
  · exact readString_escape rfl
  · exact readString_escape rfl
  · exact readString_escape rfl
  · exact readString_escape rfl
  · exact readString_escape rfl
  · exact readString_escape rfl
  · next noQuote noEscape _ _ _ _ _ =>
    split
    · next control =>
      have read := readEscape_control control t
      rw [Char.ofNat_toNat] at read
      exact readString_escape read
    · next printable => exact readString_raw noQuote noEscape printable t

theorem readString_quoted (s t : Text) : readString (s.flatMap Text.escapeChar ++ '"' :: t) = .ok (s, t) := by
  induction s with
  | nil => exact readString_close t
  | cons c s ih =>
    rw [List.flatMap_cons, List.append_assoc, readString_char, ih]
    rfl

end ProxyRouting.Json
