import ProxyRouting.Proofs.Text.Cut
import ProxyRouting.Text.Slice

/-!
Offsets and slices against cuts. What precedes a place in a text says at which offset the place is, so a slice between
two such offsets is what stands between the places (`slice_eq_ok_iff`), and the first or last character of a kind is
found at the offset where a cut there ends.
-/
namespace ProxyRouting.Text

@[simp]
theorem byteLength_nil : byteLength [] = 0 := rfl

@[simp]
theorem byteLength_cons (c : Char) (t : Text) : byteLength (c :: t) = c.utf8Size + byteLength t := rfl

@[simp]
theorem byteLength_append (s t : Text) : byteLength (s ++ t) = byteLength s + byteLength t := by simp [byteLength]

theorem byteLength_eq_zero {t : Text} : byteLength t = 0 ↔ t = [] := by
  cases t with
  | nil => simp
  | cons c t =>
    have := c.utf8Size_pos
    simp only [byteLength_cons, reduceCtorEq, iff_false]
    omega

theorem byteLength_eq_size (t : Text) : byteLength t = (String.ofList t).utf8ByteSize := by
  induction t with
  | nil => rfl
  | cons c t ih => rw [byteLength_cons, ih, String.ofList_cons, String.utf8ByteSize_append, String.utf8ByteSize_singleton]

/-- A character begins at the offset, or the text ends there. -/
def IsBoundary (t : Text) (n : Nat) : Prop := String.Pos.Raw.IsValid (String.ofList t) ⟨n⟩

theorem isBoundary_append (front back : Text) : IsBoundary (front ++ back) (byteLength front) := by
  have front_end : (String.ofList front).rawEndPos.IsValid (String.ofList front ++ String.ofList back) :=
    String.Pos.Raw.isValid_rawEndPos.append_right _
  rw [IsBoundary, String.ofList_append, byteLength_eq_size]
  exact front_end

theorem cutAt?_eq {n : Nat} {t front back : Text} (found : cutAt? n t = some (front, back)) :
    t = front ++ back ∧ byteLength front = n := by
  induction t generalizing n front with
  | nil =>
    rw [cutAt?] at found
    split at found
    · next start =>
      cases found
      exact ⟨rfl, start.symm⟩
    · cases found
  | cons c t ih =>
    rw [cutAt?] at found
    split at found
    · next start =>
      cases found
      exact ⟨rfl, start.symm⟩
    · split at found
      · next fits =>
        obtain ⟨⟨front', back'⟩, later, same⟩ := Option.map_eq_some_iff.1 found
        cases same
        obtain ⟨whole, length⟩ := ih later
        exact ⟨by rw [whole, List.cons_append], by rw [byteLength_cons, length]; omega⟩
      · cases found

theorem cutAt?_append (front back : Text) : cutAt? (byteLength front) (front ++ back) = some (front, back) := by
  induction front with
  | nil => cases back <;> simp [cutAt?]
  | cons c front ih =>
    have positive := c.utf8Size_pos
    have shorter : byteLength (c :: front) - c.utf8Size = byteLength front := by
      rw [byteLength_cons]
      omega
    rw [List.cons_append, cutAt?, if_neg (by rw [byteLength_cons]; omega), if_pos (by rw [byteLength_cons]; omega),
      shorter, ih]
    rfl

/-- A slice is what stands between its ends. -/
theorem slice_eq_ok_iff {t inside : Text} {start stop : Nat} : slice t start stop = .ok inside ↔
    ∃ front back, t = front ++ inside ++ back ∧ byteLength front = start ∧ byteLength (front ++ inside) = stop := by
  constructor
  · intro found
    unfold slice at found
    split at found
    · cases found
    · next outer back cut =>
      split at found
      · cases found
      · next front inside' cut' =>
        cases found
        obtain ⟨rfl, last⟩ := cutAt?_eq cut
        obtain ⟨rfl, first⟩ := cutAt?_eq cut'
        exact ⟨front, back, rfl, first, last⟩
  · rintro ⟨front, back, rfl, rfl, rfl⟩
    simp only [slice, cutAt?_append]

theorem sliceFrom_eq {t front back : Text} {start : Nat} (whole : t = front ++ back) (first : byteLength front = start) :
    sliceFrom t start = .ok back :=
  slice_eq_ok_iff.2 ⟨front, [], by rw [whole, List.append_nil], first, by rw [whole]⟩

theorem findOffset?_none {kind : Char → Bool} {t : Text} (absent : ∀ c ∈ t, kind c = false) : findOffset? kind t = none := by
  induction t with
  | nil => rfl
  | cons c t ih =>
    obtain ⟨other, others⟩ := List.forall_mem_cons.1 absent
    rw [findOffset?, other, ih others]
    rfl

theorem findOffset?_first {kind : Char → Bool} {front : Text} {c : Char} (first : ∀ d ∈ front, kind d = false)
    (here : kind c = true) (back : Text) : findOffset? kind (front ++ c :: back) = some (byteLength front) := by
  induction front with
  | nil => rw [List.nil_append, findOffset?, here]; rfl
  | cons d front ih =>
    obtain ⟨other, others⟩ := List.forall_mem_cons.1 first
    rw [List.cons_append, findOffset?, other, ih others]
    rfl

/-- A character is found where a cut ends at it. -/
theorem findOffset?_cut (c : Char) (t : Text) : findOffset? (· == c) t = (cut? [c] t).map fun cut => byteLength cut.1 := by
  have other {u : Text} (absent : c ∉ u) : ∀ d ∈ u, (d == c) = false := fun d member =>
    beq_false_of_ne fun same => absent (same ▸ member)
  cases found : cut? [c] t with
  | none => exact findOffset?_none (other (cut?_none.1 found))
  | some cut =>
    have whole : t = cut.1 ++ c :: cut.2 := by simpa using cut?_eq found
    rw [whole]
    exact findOffset?_first (other (notMem_of_cut? found)) (beq_self_eq_true c) cut.2

theorem findLastOffset?_cut (c : Char) (t : Text) :
    findLastOffset? (· == c) t = (cutLast? c t).map fun cut => byteLength cut.1 := by
  induction t with
  | nil => rfl
  | cons d t ih =>
    rw [findLastOffset?, ih, cutLast?]
    cases cutLast? c t with
    | some cut => rfl
    | none => by_cases same : d = c <;> simp [same]

/-- The run before the first character of a kind ends where one is found, or else at the end. -/
theorem byteLength_takeWhile (kind : Char → Bool) (t : Text) :
    (findOffset? kind t).getD (byteLength t) = byteLength (t.takeWhile (!kind ·)) := by
  induction t with
  | nil => rfl
  | cons c t ih =>
    rw [findOffset?, List.takeWhile_cons]
    cases kind c with
    | true => rfl
    | false =>
      show ((findOffset? kind t).map (c.utf8Size + ·)).getD (c.utf8Size + byteLength t) =
        c.utf8Size + byteLength (t.takeWhile (!kind ·))
      rw [← ih]
      cases findOffset? kind t <;> rfl

end ProxyRouting.Text
