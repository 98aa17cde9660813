import ProxyRouting.Regex.CodeSet
import ProxyRouting.Regex.Fault

/-!
Escapes that stand for one character, the same inside and outside classes: letters for controls,
octal and hexadecimal codes, UTF-16 units, control letters, and any other character for itself.
Whatever an escape reads, what is left is an end of the text.
-/
namespace ProxyRouting.Regex

theorem suffix_of_cons_suffix {α : Type} {a : α} {t u : List α} (h : a :: t <:+ u) : t <:+ u :=
  (List.suffix_cons a t).trans h

/-- The control character a letter stands for. -/
def controlLetter? : Char → Option Char
  | 'n' => some '\n'
  | 'r' => some '\r'
  | 't' => some '\t'
  | 'f' => some '\x0c'
  | 'v' => some '\x0b'
  | _ => none

/-- The value of an octal digit. -/
def octalValue? (c : Char) : Option Nat := if '0' ≤ c ∧ c ≤ '7' then some (c.toNat - 48) else none

/-- Reads up to `count` more octal digits. -/
def octalTail : Nat → Nat → Text → Nat × Text
  | 0, value, t => (value, t)
  | _ + 1, value, [] => (value, [])
  | count + 1, value, c :: t =>
    match octalValue? c with
    | some digit => octalTail count (value * 8 + digit) t
    | none => (value, c :: t)

theorem octalTail_suffix (count value : Nat) (t : Text) : (octalTail count value t).2 <:+ t := by
  induction count generalizing value t with
  | zero => simp [octalTail]
  | succ count ih =>
    cases t with
    | nil => simp [octalTail]
    | cons c t =>
      rw [octalTail]
      split
      · exact (ih _ _).trans (List.suffix_cons c t)
      · exact List.suffix_rfl

theorem hexDigits?_suffix {count n : Nat} {t rest : Text} (read : Text.hexDigits? count t = some (n, rest)) :
    rest <:+ t := by
  have go : ∀ (count value : Nat) (t : Text), Text.hexDigits?.go count value t = some (n, rest) → rest <:+ t := by
    intro count
    induction count with
    | zero => intro value t h; simp [Text.hexDigits?.go] at h; simp [h]
    | succ count ih =>
      intro value t h
      cases t with
      | nil => simp [Text.hexDigits?.go] at h
      | cons c t =>
        obtain ⟨digit, _, h⟩ := Option.bind_eq_some_iff.1 h
        exact (ih _ _ h).trans (List.suffix_cons c t)
  exact go count 0 t read

/-- The character of a UTF-16 unit, a high surrogate together with the escaped low one behind it. -/
def unitChar? (unit : Nat) (t : Text) : Option (Char × Text) :=
  if CodeSet.isSurrogate unit then
    if unit < 0xDC00 then
      match t with
      | '\\' :: 'u' :: t =>
        match Text.hexDigits? 4 t with
        | some (low, rest) =>
          if 0xDC00 ≤ low ∧ low ≤ 0xDFFF then
            some (Char.ofNat (0x10000 + (unit - 0xD800) * 0x400 + (low - 0xDC00)), rest)
          else none
        | none => none
      | _ => none
    else none
  else some (Char.ofNat unit, t)

theorem unitChar?_suffix {unit : Nat} {t rest : Text} {c : Char} (read : unitChar? unit t = some (c, rest)) :
    rest <:+ t := by
  unfold unitChar? at read
  split at read
  · split at read
    · split at read
      · next t =>
        split at read
        · next found =>
          split at read
          · simp only [Option.some.injEq, Prod.mk.injEq] at read
            rw [← read.2]
            exact ((hexDigits?_suffix found).trans (List.suffix_cons _ t)).trans (List.suffix_cons _ _)
          · simp at read
        · simp at read
      · simp at read
    · simp at read
  · simp only [Option.some.injEq, Prod.mk.injEq] at read
    simp [read.2]

/-- The character an escape stands for, `c` being what follows the backslash. A `\c` without a letter
    is a backslash, and the `c` is read again. -/
def charEscape (offset : Nat) (c : Char) (t : Text) : Except Fault (Char × Text) :=
  match controlLetter? c with
  | some control => .ok (control, t)
  | none =>
    match octalValue? c with
    | some digit =>
      let (value, rest) := octalTail (if digit ≤ 3 then 2 else 1) digit t
      .ok (Char.ofNat value, rest)
    | none =>
      if c = 'x' then
        match Text.hexDigits? 2 t with
        | some (value, rest) => .ok (Char.ofNat value, rest)
        | none => .ok ('x', t)
      else if c = 'u' then
        match Text.hexDigits? 4 t with
        | some (unit, rest) =>
          match unitChar? unit rest with
          | some read => .ok read
          | none => .error (.invalidEscape offset)
        | none => .ok ('u', t)
      else if c = 'c' then
        match t with
        | letter :: rest =>
          if letter.isAlpha then .ok (Char.ofNat (letter.toNat % 32), rest) else .ok ('\\', c :: t)
        | [] => .ok ('\\', c :: t)
      else .ok (c, t)

theorem charEscape_suffix {offset : Nat} {c d : Char} {t rest : Text}
    (read : charEscape offset c t = .ok (d, rest)) : rest <:+ c :: t := by
  have self : t <:+ c :: t := List.suffix_cons c t
  unfold charEscape at read
  split at read
  · cases read; exact self
  · split at read
    · next digit _ =>
      simp only [Except.ok.injEq, Prod.mk.injEq] at read
      exact read.2 ▸ (octalTail_suffix _ _ _).trans self
    · split at read
      · split at read
        · next found => cases read; exact (hexDigits?_suffix found).trans self
        · cases read; exact self
      · split at read
        · split at read
          · next found =>
            split at read
            · next joined =>
              cases read; exact ((unitChar?_suffix joined).trans (hexDigits?_suffix found)).trans self
            · cases read
          · cases read; exact self
        · split at read
          · split at read
            · next letter rest' =>
              split at read
              · cases read; exact (List.suffix_cons letter _).trans self
              · cases read; exact List.suffix_rfl
            · cases read; exact List.suffix_rfl
          · cases read; exact self

end ProxyRouting.Regex
