/-!
Text as a list of characters, with the cuts every notation of the library is read by: what follows
a given opening, the first and the last place where a separator stands, and replacement. Cuts lose
nothing: the pieces with the separator between them are the text again.
-/
-- Sums begin at the zero of the language itself, and powers of numbers are its own, whatever else is imported.
attribute [local instance (10000)] Zero.ofOfNat0
attribute [instance (10000), default_instance 10000] instPowNat

namespace ProxyRouting

/-- Text is its sequence of Unicode scalar values, so every operation is a recursion on it. -/
abbrev Text := List Char

namespace Text

/-- What follows `lead`, when the text starts with it. -/
def dropLead? : Text → Text → Option Text
  | [], t => some t
  | _ :: _, [] => none
  | l :: lead, c :: t => if l = c then dropLead? lead t else none

theorem dropLead?_eq_some {lead t rest : Text} : dropLead? lead t = some rest ↔ t = lead ++ rest := by
  induction lead generalizing t with
  | nil => simp [dropLead?]
  | cons l lead ih =>
    cases t with
    | nil => simp [dropLead?]
    | cons c t =>
      by_cases same : l = c
      · subst same; simp [dropLead?, ih]
      · simp [dropLead?, same, Ne.symm same]

/-- What precedes `tail`, when the text ends with it. -/
def dropTail? (tail t : Text) : Option Text :=
  (dropLead? tail.reverse t.reverse).map List.reverse

theorem dropTail?_eq_some {tail t rest : Text} : dropTail? tail t = some rest ↔ t = rest ++ tail := by
  simp only [dropTail?, Option.map_eq_some_iff, dropLead?_eq_some]
  constructor
  · rintro ⟨u, reversed, rfl⟩
    simpa using congrArg List.reverse reversed
  · rintro rfl
    exact ⟨rest.reverse, by simp, by simp⟩

/-- The text before and after the first place where `sep` occurs. -/
def cut? (sep : Text) : Text → Option (Text × Text)
  | [] => if sep = [] then some ([], []) else none
  | c :: t =>
    match dropLead? sep (c :: t) with
    | some rest => some ([], rest)
    | none => (cut? sep t).map fun (before, after) => (c :: before, after)

theorem cut?_eq {sep t before after : Text} (found : cut? sep t = some (before, after)) :
    t = before ++ sep ++ after := by
  induction t generalizing before with
  | nil =>
    by_cases empty : sep = []
    · simp [cut?, empty] at found; simp [found, empty]
    · simp [cut?, empty] at found
  | cons c t ih =>
    rw [cut?] at found
    split at found
    · next rest starts =>
      obtain ⟨rfl, rfl⟩ := Prod.mk.injEq .. ▸ Option.some.injEq .. ▸ found
      simpa using dropLead?_eq_some.1 starts
    · obtain ⟨⟨b, a⟩, later, same⟩ := Option.map_eq_some_iff.1 found
      obtain ⟨rfl, rfl⟩ := Prod.mk.injEq .. ▸ same
      simp [ih later]

/-- The text before and after the last place where the character occurs. -/
def cutLast? (sep : Char) : Text → Option (Text × Text)
  | [] => none
  | c :: t =>
    match cutLast? sep t with
    | some (before, after) => some (c :: before, after)
    | none => if c = sep then some ([], t) else none

theorem cutLast?_eq {sep : Char} {t before after : Text} (found : cutLast? sep t = some (before, after)) :
    t = before ++ sep :: after := by
  induction t generalizing before with
  | nil => simp [cutLast?] at found
  | cons c t ih =>
    rw [cutLast?] at found
    split at found
    · next b a later =>
      obtain ⟨rfl, rfl⟩ := Prod.mk.injEq .. ▸ Option.some.injEq .. ▸ found
      simp [ih later]
    · split at found
      · next same =>
        obtain ⟨rfl, rfl⟩ := Prod.mk.injEq .. ▸ Option.some.injEq .. ▸ found
        simp [same]
      · simp at found

/-- `sep` occurs somewhere in the text. -/
def contains (sep t : Text) : Bool := (cut? sep t).isSome

/-- The pieces between the occurrences of a non-empty separator, read from the left without
    overlap. -/
def piecesBetween (sep : Text) (nonempty : sep ≠ []) (t : Text) : List Text :=
  match _found : cut? sep t with
  | none => [t]
  | some (before, after) => before :: piecesBetween sep nonempty after
termination_by t.length
decreasing_by
  have := congrArg List.length (cut?_eq _found)
  have := List.length_pos_iff.2 nonempty
  simp at *; omega

/-- Splits a text at every occurrence of the separator; the empty separator stands at both ends and
    between any two characters. -/
def split (sep t : Text) : List Text :=
  if empty : sep = [] then [] :: (t.map ([·]) ++ [[]]) else piecesBetween sep empty t

/-- The texts joined with the separator between neighbours. -/
def join (sep : Text) : List Text → Text
  | [] => []
  | [t] => t
  | t :: ts => t ++ sep ++ join sep ts

/-- ASCII letters in lower case, all else as it stands. -/
def lower (t : Text) : Text := t.map Char.toLower

/-- ASCII letters in upper case, all else as it stands. -/
def upper (t : Text) : Text := t.map Char.toUpper

/-- The size of the text in UTF-8 bytes. -/
def byteLength (t : Text) : Nat := (t.map Char.utf8Size).sum

end Text
end ProxyRouting
