import ProxyRouting.Proofs.Regex.CodeSet
import ProxyRouting.Proofs.Text.Cut

/-!
Classes as they are spelled for the engine. A class lists codes in braces, alone or as the ends of ranges, and with a
caret it has what is not listed; what is spelled for a set has the characters of the set (`classHas?_scalars`), the class
without members being one that lists every character behind a caret.
-/
namespace ProxyRouting.Regex
open Text

/-- The character whose code stands in braces, and the text behind it. -/
def readCode? (t : Text) : Option (Char × Text) :=
  (dropLead? "\\x\x7b".toList t).bind fun inner =>
    (cut? ['\x7d'] inner).bind fun (digits, rest) =>
      (hexDigits? digits.length digits).bind fun (n, _) =>
        if digits ≠ [] ∧ n.isValidChar then some (Char.ofNat n, rest) else none

theorem length_readCode? {t rest : Text} {c : Char} (read : readCode? t = some (c, rest)) : rest.length < t.length := by
  obtain ⟨inner, lead, read⟩ := Option.bind_eq_some_iff.1 read
  obtain ⟨⟨digits, behind⟩, cut, read⟩ := Option.bind_eq_some_iff.1 read
  obtain ⟨⟨n, _⟩, -, read⟩ := Option.bind_eq_some_iff.1 read
  obtain ⟨-, same⟩ := Option.ite_none_right_eq_some.1 read
  cases same
  rw [dropLead?_eq_some.1 lead, cut?_eq cut]
  simp only [List.length_append, List.length_singleton]
  omega

/-- The ranges that are listed up to the bracket that ends a text. -/
def readRanges? (t : Text) : Option (List CharRange) :=
  if t = [']'] then some []
  else
    match _first : readCode? t with
    | none => none
    | some (first, '-' :: behind) =>
      match _last : readCode? behind with
      | none => none
      | some (last, rest) => if first ≤ last then (readRanges? rest).map (⟨first, last⟩ :: ·) else none
    | some (first, rest) => (readRanges? rest).map (⟨first, first⟩ :: ·)
termination_by t.length
decreasing_by
  · have := length_readCode? _first
    have := length_readCode? _last
    rw [List.length_cons] at *
    omega
  · exact length_readCode? _first

/-- Whether a class has a character; none for what is no class. -/
def classHas? (t : Text) (c : Char) : Option Bool :=
  match t with
  | '[' :: '^' :: listed => (readRanges? listed).map fun ranges => !ranges.any (·.contains c)
  | '[' :: listed => (readRanges? listed).map fun ranges => ranges.any (·.contains c)
  | _ => none

theorem readRanges?_single {t rest : Text} {c : Char} (read : readCode? t = some (c, rest)) (more : t ≠ [']'])
    (plain : rest.head? ≠ some '-') : readRanges? t = (readRanges? rest).map (⟨c, c⟩ :: ·) := by
  rw [readRanges?, if_neg more]
  split
  · next none => cases none.symm.trans read
  · next first behind dash =>
    cases dash.symm.trans read
    exact absurd rfl plain
  · next first rest' _ single =>
    cases single.symm.trans read
    rfl

theorem readRanges?_range {t behind rest : Text} {first last : Char} (read : readCode? t = some (first, '-' :: behind))
    (read' : readCode? behind = some (last, rest)) (more : t ≠ [']']) (filled : first ≤ last) :
    readRanges? t = (readRanges? rest).map (⟨first, last⟩ :: ·) := by
  rw [readRanges?, if_neg more]
  split
  · next none => cases none.symm.trans read
  · next dash =>
    cases dash.symm.trans read
    split
    · next none => cases none.symm.trans read'
    · next ended =>
      cases ended.symm.trans read'
      exact if_pos filled
  · next plain single =>
    cases single.symm.trans read
    exact absurd rfl (plain behind)

theorem readCode?_renderCode (c : Char) (t : Text) : readCode? (renderCode c ++ t) = some (c, t) := by
  have digits : ∀ d ∈ hexUpper c.toNat, d ≠ '\x7d' := by
    have known : ∀ n < 16, n.digitChar.toUpper ≠ '\x7d' := by decide
    intro d member
    obtain ⟨n, small, rfl⟩ := mem_hexUpper d member
    exact known n small
  have spelled : renderCode c ++ t = "\\x\x7b".toList ++ (hexUpper c.toNat ++ '\x7d' :: t) := by simp [renderCode]
  have present : hexUpper c.toNat ≠ [] := by simpa [hexUpper, upper] using hexLower_ne_nil c.toNat
  have valid : c.toNat.isValidChar := c.valid
  rw [readCode?, spelled, dropLead?_append, Option.bind_some, cut?_single fun member => digits _ member rfl,
    Option.bind_some]
  simp only [hexDigits?_hexUpper, Option.bind_some, present, valid, ne_eq, not_false_eq_true, and_self, ↓reduceIte,
    Char.ofNat_toNat]

/-- What is listed behind a range is more of them, or the end, so a dash belongs to the range before it. -/
theorem head_listed (ranges : List CharRange) : (ranges.flatMap CharRange.render ++ [']']).head? ≠ some '-' := by
  cases ranges with
  | nil => decide
  | cons r ranges =>
    rw [List.flatMap_cons, CharRange.render]
    split <;> simp [renderCode]

theorem readRanges?_render {ranges : List CharRange} (filled : ∀ r ∈ ranges, r.first ≤ r.last) :
    readRanges? (ranges.flatMap CharRange.render ++ [']']) = some ranges := by
  induction ranges with
  | nil => rw [readRanges?, if_pos (by simp)]
  | cons r ranges ih =>
    have later := ih fun s member => filled s (List.mem_cons_of_mem r member)
    have plain := head_listed ranges
    rw [List.flatMap_cons, List.append_assoc]
    generalize ranges.flatMap CharRange.render ++ [']'] = rest at later plain
    have more (c : Char) (t : Text) : renderCode c ++ t ≠ [']'] := by simp [renderCode]
    rw [CharRange.render]
    by_cases single : r.first = r.last
    · rw [if_pos single, readRanges?_single (readCode?_renderCode _ _) (more _ _) plain, later]
      exact congrArg (fun last => some (CharRange.mk r.first last :: ranges)) single
    · rw [if_neg single, List.append_assoc, List.cons_append, readRanges?_range (readCode?_renderCode _ _)
        (readCode?_renderCode _ _) (more _ _) (filled r (by simp)), later]
      rfl

theorem classHas?_listed {t : Text} (plain : t.head? ≠ some '^') (c : Char) :
    classHas? ('[' :: t) c = (readRanges? t).map fun ranges => ranges.any (·.contains c) := by
  unfold classHas?
  split
  · next listed same =>
    cases same
    exact absurd rfl plain
  · next same =>
    cases same
    rfl
  · next other => exact absurd rfl (other t)

/-- Every character lies in the range that the class without members lists. -/
theorem classHas?_emptyClass (c : Char) : classHas? emptyClass c = some false := by
  have everything : emptyClass =
      '[' :: '^' :: ([⟨Char.ofNat 0, Char.ofNat CodeSet.maxCode⟩].flatMap CharRange.render ++ [']']) := by decide
  have member : CharRange.contains ⟨Char.ofNat 0, Char.ofNat CodeSet.maxCode⟩ c = true :=
    CodeSet.charRange_contains.2 ⟨Nat.zero_le _, CodeSet.toNat_le c⟩
  rw [everything, classHas?, readRanges?_render (by decide), Option.map_some, List.any_cons, member]
  rfl

/-- The class of a set has just the characters of the set. -/
theorem classHas?_scalars {set : CodeSet} (valid : CodeSet.Valid set) (c : Char) :
    classHas? (Token.oneOf set.scalars).render c = some (CodeSet.contains set c.toNat) := by
  have members : set.scalars.any (·.contains c) = CodeSet.contains set c.toNat := by
    rw [Bool.eq_iff_iff, List.any_eq_true, CodeSet.contains_scalars valid]
  have filled : ∀ r ∈ set.scalars, r.first ≤ r.last := by
    intro s member
    obtain ⟨r, _, clipped⟩ := List.mem_filterMap.1 member
    exact (CodeSet.clip?_inside clipped).2.1
  rw [← members]
  cases spelled : set.scalars with
  | nil => exact classHas?_emptyClass c
  | cons r ranges =>
    rw [spelled] at filled
    have plain : ((r :: ranges).flatMap CharRange.render ++ [']']).head? ≠ some '^' := by
      rw [List.flatMap_cons, CharRange.render]
      split <;> simp [renderCode]
    show classHas? ('[' :: ((r :: ranges).flatMap CharRange.render ++ [']'])) c = _
    rw [classHas?_listed plain, readRanges?_render filled, Option.map_some]

end ProxyRouting.Regex
