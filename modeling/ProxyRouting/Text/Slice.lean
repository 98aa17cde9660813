import ProxyRouting.Text.Units

/-!
Offsets in UTF-8 bytes: where a character of some kind or a part stands in a text, and the slice between two offsets.
A slice does not exist if its ends are out of order, beyond the end of the text or inside of a character.
-/
namespace ProxyRouting.Text

/-- The ends of a slice that a text does not have. -/
structure BadSlice where
  start : Nat
  stop : Nat
  deriving DecidableEq, Repr

/-- The text before an offset and the text behind it; none where no character begins and the text does not end. -/
def cutAt? : Nat → Text → Option (Text × Text)
  | n, [] => if n = 0 then some ([], []) else none
  | n, c :: t =>
    if n = 0 then some ([], c :: t)
    else if c.utf8Size ≤ n then (cutAt? (n - c.utf8Size) t).map fun (front, back) => (c :: front, back)
    else none

/-- The slice of a text from one offset to another. -/
def slice (t : Text) (start stop : Nat) : Except BadSlice Text :=
  match cutAt? stop t with
  | none => .error ⟨start, stop⟩
  | some (front, _) =>
    match cutAt? start front with
    | none => .error ⟨start, stop⟩
    | some (_, inside) => .ok inside

/-- The slice of a text from an offset to the end. -/
def sliceFrom (t : Text) (start : Nat) : Except BadSlice Text := slice t start (byteLength t)

/-- The offset of the first character of a kind. -/
def findOffset? (kind : Char → Bool) : Text → Option Nat
  | [] => none
  | c :: t => if kind c then some 0 else (findOffset? kind t).map (c.utf8Size + ·)

/-- The offset of the last character of a kind. -/
def findLastOffset? (kind : Char → Bool) : Text → Option Nat
  | [] => none
  | c :: t =>
    match findLastOffset? kind t with
    | some n => some (c.utf8Size + n)
    | none => if kind c then some 0 else none

/-- The UTF-8 bytes of a text. -/
def bytes (t : Text) : List UInt8 := t.flatMap String.utf8EncodeChar

/-- The index at which a part of a list first stands. -/
def firstPlace? {α : Type} [BEq α] (part : List α) : List α → Option Nat
  | [] => if part.isEmpty then some 0 else none
  | a :: rest => if part.isPrefixOf (a :: rest) then some 0 else (firstPlace? part rest).map (· + 1)

/-- The position in units at which a part first stands, found among the bytes. -/
def unitPlace? (part t : Text) : Except BadSlice (Option Nat) := do
  let some offset := firstPlace? (bytes part) (bytes t) | return none
  let before ← slice t 0 offset
  return some (unitLength before)

end ProxyRouting.Text
