import Mathlib.Data.List.Chain

/-!
Parentheses that pair up. A sequence is read from the left with some of its members opening and some closing; it
closes what is open before it and all that it opens itself (`Closes`), or, nothing being open before, is `Balanced`.
-/
namespace ProxyRouting.Regex

/-- Read from the left, what closes never outnumbers what opens by more than `depth`, and in the end does by
    just that. -/
structure Closes {α : Type} (opens closes : α → Bool) (depth : Nat) (l : List α) : Prop where
  below : ∀ front, front <+: l → front.countP closes ≤ front.countP opens + depth
  level : l.countP closes = l.countP opens + depth

/-- What opens and what closes pair up as parentheses do. -/
abbrev Balanced {α : Type} (opens closes : α → Bool) (l : List α) : Prop := Closes opens closes 0 l

section
variable {α : Type} {opens closes : α → Bool}

theorem closes_nil {depth : Nat} : Closes opens closes depth [] ↔ depth = 0 := by
  constructor
  · intro closed
    simpa using closed.level.symm
  · rintro rfl
    exact ⟨by simp, rfl⟩

theorem closes_cons {a : α} {l : List α} {depth inner : Nat}
    (step : inner + (if closes a then 1 else 0) = depth + (if opens a then 1 else 0)) :
    Closes opens closes depth (a :: l) ↔ Closes opens closes inner l := by
  constructor
  · intro closed
    refine ⟨fun front inside => ?_, ?_⟩
    · have := closed.below (a :: front) (List.cons_prefix_cons.2 ⟨rfl, inside⟩)
      simp only [List.countP_cons] at this
      omega
    · have := closed.level
      simp only [List.countP_cons] at this
      omega
  · intro closed
    refine ⟨fun front inside => ?_, ?_⟩
    · rcases List.prefix_cons_iff.1 inside with rfl | ⟨behind, rfl, prefixed⟩
      · simp
      · have := closed.below behind prefixed
        simp only [List.countP_cons]
        omega
    · have := closed.level
      simp only [List.countP_cons]
      omega

theorem closes_append {l l' : List α} {depth : Nat} (first : Balanced opens closes l)
    (second : Closes opens closes depth l') : Closes opens closes depth (l ++ l') := by
  refine ⟨fun front inside => ?_, ?_⟩
  · rcases List.prefix_or_prefix_of_prefix inside (List.prefix_append l l') with within | ⟨behind, rfl⟩
    · have := first.below front within
      omega
    · have := first.level
      have := second.below behind ((List.prefix_append_right_inj l).1 inside)
      simp only [List.countP_append]
      omega
  · have := first.level
    have := second.level
    simp only [List.countP_append]
    omega

theorem balanced_of_neither {l : List α} (neither : ∀ a ∈ l, opens a = false ∧ closes a = false) :
    Balanced opens closes l := by
  have none {front : List α} (inside : front ⊆ l) : front.countP opens = 0 ∧ front.countP closes = 0 := by
    simp only [List.countP_eq_zero]
    exact ⟨fun a member => by simp [neither a (inside member)], fun a member => by simp [neither a (inside member)]⟩
  refine ⟨fun front inside => ?_, ?_⟩
  · have := none inside.subset
    omega
  · have := none (List.Subset.refl l)
    omega

/-- No more may close than is open. -/
theorem not_closes {a : α} {l : List α} {depth : Nat}
    (excess : depth + (if opens a then 1 else 0) < (if closes a then 1 else 0)) :
    ¬ Closes opens closes depth (a :: l) := by
  intro closed
  have := closed.below [a] (by simp)
  simp only [List.countP_cons, List.countP_nil] at this
  omega

end

/-- Whether a sequence closes what is open is decided in one pass over it. -/
def decidableCloses {α : Type} (opens closes : α → Bool) : (depth : Nat) → (l : List α) →
    Decidable (Closes opens closes depth l)
  | depth, [] => decidable_of_iff (depth = 0) closes_nil.symm
  | depth, a :: l =>
    if room : (if closes a then 1 else 0) ≤ depth + (if opens a then 1 else 0) then
      have := decidableCloses opens closes (depth + (if opens a then 1 else 0) - (if closes a then 1 else 0)) l
      decidable_of_iff _ (closes_cons (Nat.sub_add_cancel room)).symm
    else isFalse (not_closes (Nat.lt_of_not_le room))

instance {α : Type} (opens closes : α → Bool) (depth : Nat) (l : List α) :
    Decidable (Closes opens closes depth l) :=
  decidableCloses opens closes depth l

end ProxyRouting.Regex
