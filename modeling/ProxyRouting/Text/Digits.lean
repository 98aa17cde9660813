import ProxyRouting.Text.Basic

/-!
Numbers written in digits: decimal and hexadecimal text of naturals and integers, and runs of
decimal digits read back.
-/
namespace ProxyRouting.Text

/-- The decimal digits of a number, without leading zeros. -/
def ofNat (n : Nat) : Text := Nat.toDigits 10 n

/-- A whole number in decimal, negative ones behind a minus sign. -/
def ofInt : Int → Text
  | .ofNat n => ofNat n
  | .negSucc n => '-' :: ofNat (n + 1)

/-- Lower-case hexadecimal digits, without leading zeros. -/
def hexLower (n : Nat) : Text := Nat.toDigits 16 n

/-- Upper-case hexadecimal digits, without leading zeros. -/
def hexUpper (n : Nat) : Text := upper (hexLower n)

/-- Zeros in front, up to the given width. -/
def padZeros (width : Nat) (t : Text) : Text := List.replicate (width - t.length) '0' ++ t

/-- The number a run of decimal digits stands for. -/
def digitsValue (digits : Text) : Nat := Nat.ofDigitChars 10 digits 0

/-- The value of a hexadecimal digit in either case. -/
def hexValue? (c : Char) : Option Nat :=
  if c.isDigit then some (c.toNat - 48)
  else if 'a' ≤ c ∧ c ≤ 'f' then some (c.toNat - 87)
  else if 'A' ≤ c ∧ c ≤ 'F' then some (c.toNat - 55)
  else none

/-- The value of exactly `count` hexadecimal digits, and the text behind them. -/
def hexDigits? : Nat → Text → Option (Nat × Text)
  | count, t => go count 0 t
where
  go : Nat → Nat → Text → Option (Nat × Text)
    | 0, value, t => some (value, t)
    | _ + 1, _, [] => none
    | count + 1, value, c :: t => (hexValue? c).bind fun digit => go count (value * 16 + digit) t

end ProxyRouting.Text
