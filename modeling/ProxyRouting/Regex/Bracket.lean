import ProxyRouting.Regex.Escape

/-!
Character classes between brackets, as the items they list. A class runs to its first unescaped
closing bracket; a dash between two characters makes a range, a dash next to a set is a dash.
-/
namespace ProxyRouting.Regex

/-- What one place of a class names: a character, or the set of an escape such as `\d`. -/
inductive Atom
  | char (c : Char)
  | set (s : CodeSet)
  deriving DecidableEq, Repr

/-- One item of a class. -/
inductive ClassItem
  | one (a : Atom)
  | range (low high : Char)
  /-- Two atoms, at least one of them a set, with a dash between them. -/
  | dashed (a b : Atom)
  deriving DecidableEq, Repr

/-- The code points an atom names. -/
def Atom.codes : Atom → CodeSet
  | .char c => [⟨c.toNat, c.toNat⟩]
  | .set s => s

/-- The code points an item adds to its class. -/
def ClassItem.codes : ClassItem → CodeSet
  | .one a => a.codes
  | .range low high => [⟨low.toNat, high.toNat⟩]
  | .dashed a b => a.codes ++ [⟨'-'.toNat, '-'.toNat⟩] ++ b.codes

/-- The ascending code points of a class. -/
def classCodes (negated : Bool) (items : List ClassItem) : CodeSet :=
  let codes := items.flatMap ClassItem.codes
  if negated then CodeSet.complement codes else CodeSet.normalize codes

/-- Reads the atom that begins with `c`; inside a class `\b` is a backspace. -/
def readAtom (offset : Nat) (c : Char) (t : Text) : Except Fault (Atom × Text) :=
  if c = '\\' then
    match t with
    | [] => .error .unterminatedClass
    | d :: rest =>
      match CodeSet.ofEscape? d with
      | some s => .ok (.set s, rest)
      | none =>
        if d = 'b' then .ok (.char '\x08', rest)
        else
          match charEscape offset d rest with
          | .ok (e, rest) => .ok (.char e, rest)
          | .error fault => .error fault
  else .ok (.char c, t)

theorem readAtom_suffix {offset : Nat} {c : Char} {t rest : Text} {a : Atom}
    (read : readAtom offset c t = .ok (a, rest)) : rest <:+ t := by
  unfold readAtom at read
  split at read
  · split at read
    · cases read
    · next d rest' =>
      split at read
      · cases read; exact List.suffix_cons d _
      · split at read
        · cases read; exact List.suffix_cons d _
        · split at read
          · next escaped => cases read; exact charEscape_suffix escaped
          · cases read
  · cases read; exact List.suffix_rfl

/-- The item two atoms with a dash between them make, `offset` being that of the first. -/
def dashItem (offset : Nat) : Atom → Atom → Except Fault ClassItem
  | .char low, .char high => if high < low then .error (.rangeOutOfOrder offset) else .ok (.range low high)
  | a, b => .ok (.dashed a b)

/-- Reads one item that begins with `c`; `total` is the length of the whole source. -/
def readItem (total : Nat) (c : Char) (t : Text) : Except Fault (ClassItem × Text) :=
  let offset := total - t.length - 1
  match readAtom offset c t with
  | .error fault => .error fault
  | .ok (a, '-' :: d :: rest) =>
    if d = ']' then .ok (.one a, '-' :: d :: rest)
    else
      match readAtom (total - rest.length - 1) d rest with
      | .error fault => .error fault
      | .ok (b, rest) =>
        match dashItem offset a b with
        | .error fault => .error fault
        | .ok item => .ok (item, rest)
  | .ok (a, rest) => .ok (.one a, rest)

theorem readItem_suffix {total : Nat} {c : Char} {t rest : Text} {item : ClassItem}
    (read : readItem total c t = .ok (item, rest)) : rest <:+ t := by
  unfold readItem at read
  simp only at read
  split at read
  · cases read
  · next a d rest' first =>
    have inside : rest' <:+ t :=
      suffix_of_cons_suffix (suffix_of_cons_suffix (readAtom_suffix first))
    split at read
    · cases read; exact readAtom_suffix first
    · split at read
      · cases read
      · next second =>
        split at read
        · cases read
        · cases read; exact (readAtom_suffix second).trans inside
  · cases read; exact readAtom_suffix (by assumption)

/-- Reads the items of a class up to its closing bracket. -/
def readItems (total : Nat) : Text → Except Fault (List ClassItem × Text)
  | [] => .error .unterminatedClass
  | c :: t =>
    if c = ']' then .ok ([], t)
    else
      match _read : readItem total c t with
      | .error fault => .error fault
      | .ok (item, rest) =>
        match readItems total rest with
        | .error fault => .error fault
        | .ok (items, rest) => .ok (item :: items, rest)
termination_by t => t.length
decreasing_by have := (readItem_suffix _read).length_le; simp; omega

theorem readItems_suffix {total : Nat} {t rest : Text} {items : List ClassItem}
    (read : readItems total t = .ok (items, rest)) : rest <:+ t := by
  fun_induction readItems total t generalizing items rest with
  | case1 => cases read
  | case2 => cases read; exact List.suffix_cons _ _
  | case3 => cases read
  | case4 => cases read
  | case5 c t _ item rest' found items' rest'' inner ih =>
    cases read
    exact ((ih inner).trans (readItem_suffix found)).trans (List.suffix_cons _ _)

/-- Reads a class behind its opening bracket: whether it is negated, and its items. -/
def readClass (total : Nat) (t : Text) : Except Fault ((Bool × List ClassItem) × Text) :=
  match t with
  | '^' :: rest =>
    match readItems total rest with
    | .ok (items, rest) => .ok ((true, items), rest)
    | .error fault => .error fault
  | t =>
    match readItems total t with
    | .ok (items, rest) => .ok ((false, items), rest)
    | .error fault => .error fault

theorem readClass_suffix {total : Nat} {t rest : Text} {cls : Bool × List ClassItem}
    (read : readClass total t = .ok (cls, rest)) : rest <:+ t := by
  unfold readClass at read
  split at read
  · split at read
    · next inner => cases read; exact (readItems_suffix inner).trans (List.suffix_cons _ _)
    · cases read
  · split at read
    · next inner => cases read; exact readItems_suffix inner
    · cases read

end ProxyRouting.Regex
