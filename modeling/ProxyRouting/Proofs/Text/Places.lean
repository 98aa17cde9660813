import ProxyRouting.Proofs.Text.Slice
import ProxyRouting.Proofs.Text.Synchronous

/-!
Places of a part in a text, counted in units of a synchronous code. A cut is made at the first of them
(`first_of_cut?`), and the pieces between cuts are one more than the places found from the left
(`length_piecesBetween`). Both hold of UTF-8 and UTF-16 alike, so what is found among the bytes of a text is found at the
same place among its UTF-16 units (`unitPlace?_eq`).
-/
namespace ProxyRouting

section
variable {α : Type}

theorem occursAt_zero {part whole : List α} : OccursAt part whole 0 ↔ part <+: whole := by
  constructor
  · rintro ⟨before, after, rfl, empty⟩
    rw [List.length_eq_zero_iff.1 empty]
    exact ⟨after, rfl⟩
  · rintro ⟨after, rfl⟩
    exact ⟨[], after, rfl, rfl⟩

theorem occursAt_succ {part whole : List α} {a : α} {i : Nat} : OccursAt part (a :: whole) (i + 1) ↔ OccursAt part whole i := by
  constructor
  · rintro ⟨before, after, same, length⟩
    cases before with
    | nil => cases length
    | cons b before =>
      obtain ⟨rfl, rest⟩ := List.cons.inj same
      exact ⟨before, after, rest, Nat.succ.inj length⟩
  · rintro ⟨before, after, rfl, rfl⟩
    exact ⟨a :: before, after, rfl, rfl⟩

/-- The least index at which a part stands, or -1 if there is none. -/
inductive FirstPlace (part whole : List α) : Int → Prop
  | found {i : Nat} (here : OccursAt part whole i) (first : ∀ j, OccursAt part whole j → i ≤ j) : FirstPlace part whole i
  | absent (nowhere : ∀ i, ¬ OccursAt part whole i) : FirstPlace part whole (-1)

variable [DecidableEq α]

theorem firstPlace?_eq_some {part whole : List α} {i : Nat} (here : OccursAt part whole i)
    (first : ∀ j, OccursAt part whole j → i ≤ j) : Text.firstPlace? part whole = some i := by
  induction whole generalizing i with
  | nil =>
    obtain ⟨before, after, whole, rfl⟩ := here
    obtain ⟨rfl, rfl, rfl⟩ : before = [] ∧ part = [] ∧ after = [] := by simpa using whole
    rfl
  | cons a whole ih =>
    rw [Text.firstPlace?]
    split
    · next begins =>
      have least := first 0 (occursAt_zero.2 (List.isPrefixOf_iff_prefix.1 begins))
      rw [Nat.le_zero.1 least]
    · next elsewhere =>
      cases i with
      | zero => exact absurd (List.isPrefixOf_iff_prefix.2 (occursAt_zero.1 here)) elsewhere
      | succ i =>
        have later : ∀ j, OccursAt part whole j → i ≤ j := fun j there =>
          Nat.le_of_succ_le_succ (first (j + 1) (occursAt_succ.2 there))
        rw [ih (occursAt_succ.1 here) later]
        rfl

theorem firstPlace?_eq_none {part whole : List α} (nowhere : ∀ i, ¬ OccursAt part whole i) :
    Text.firstPlace? part whole = none := by
  induction whole with
  | nil =>
    have present : part ≠ [] := by
      rintro rfl
      exact nowhere 0 ⟨[], [], rfl, rfl⟩
    rw [Text.firstPlace?, if_neg (mt List.isEmpty_iff.1 present)]
  | cons a whole ih =>
    have elsewhere : ¬ part.isPrefixOf (a :: whole) := fun begins =>
      nowhere 0 (occursAt_zero.2 (List.isPrefixOf_iff_prefix.1 begins))
    rw [Text.firstPlace?, if_neg elsewhere, ih fun i there => nowhere (i + 1) (occursAt_succ.2 there)]
    rfl

/-- How many times a part is found from the left, each time behind the last one; `skip` units are left to pass over. -/
def occurrences (part : List α) : Nat → List α → Nat
  | _, [] => 0
  | skip + 1, _ :: rest => occurrences part skip rest
  | 0, a :: rest =>
    if part.isPrefixOf (a :: rest) then occurrences part (part.length - 1) rest + 1 else occurrences part 0 rest

theorem occurrences_pass (part front rest : List α) :
    occurrences part front.length (front ++ rest) = occurrences part 0 rest := by
  induction front with
  | nil => rfl
  | cons a front ih => rw [List.length_cons, List.cons_append, occurrences, ih]

theorem occurrences_eq_zero {part whole : List α} (nowhere : ∀ i, ¬ OccursAt part whole i) : occurrences part 0 whole = 0 := by
  induction whole with
  | nil => rfl
  | cons a whole ih =>
    have elsewhere : ¬ part.isPrefixOf (a :: whole) := fun begins =>
      nowhere 0 (occursAt_zero.2 (List.isPrefixOf_iff_prefix.1 begins))
    rw [occurrences, if_neg elsewhere, ih fun i there => nowhere (i + 1) (occursAt_succ.2 there)]

/-- The first place counts once, and counting goes on behind it. -/
theorem occurrences_append {part before after : List α} (present : part ≠ [])
    (first : ∀ j, OccursAt part (before ++ part ++ after) j → before.length ≤ j) :
    occurrences part 0 (before ++ part ++ after) = occurrences part 0 after + 1 := by
  induction before with
  | nil =>
    obtain ⟨p, others, rfl⟩ := List.exists_cons_of_ne_nil present
    have begins : (p :: others).isPrefixOf (p :: (others ++ after)) :=
      List.isPrefixOf_iff_prefix.2 (List.prefix_append (p :: others) after)
    rw [List.nil_append, List.cons_append, occurrences, if_pos begins, List.length_cons, Nat.add_sub_cancel,
      occurrences_pass]
  | cons b before ih =>
    rw [List.cons_append, List.cons_append] at first ⊢
    have elsewhere : ¬ part.isPrefixOf (b :: (before ++ part ++ after)) := fun begins =>
      Nat.not_succ_le_zero _ (first 0 (occursAt_zero.2 (List.isPrefixOf_iff_prefix.1 begins)))
    rw [occurrences, if_neg elsewhere]
    exact ih fun j there => Nat.le_of_succ_le_succ (first (j + 1) (occursAt_succ.2 there))

end

namespace Synchronous
open Text

variable {α : Type} {code : Char → List α} {Lead : α → Prop} (sync : Synchronous code Lead)
include sync

/-- A cut is made at the first place of the separator. -/
theorem first_of_cut? {part t before after : Text} (found : cut? part t = some (before, after)) :
    OccursAt (part.flatMap code) (t.flatMap code) (before.flatMap code).length ∧
      ∀ j, OccursAt (part.flatMap code) (t.flatMap code) j → (before.flatMap code).length ≤ j := by
  have whole := cut?_eq found
  refine ⟨⟨_, after.flatMap code, by rw [whole, List.flatMap_append, List.flatMap_append], rfl⟩, fun j there => ?_⟩
  by_cases empty : part = []
  · have none : before = [] := List.length_eq_zero_iff.1 (Nat.le_zero.1 (length_le_of_cut? found [] t (by rw [empty]; rfl)))
    rw [none]
    exact Nat.zero_le j
  · obtain ⟨front, back, whole', rfl⟩ := (sync.occursAt_iff empty j).1 there
    have begins : before <+: t := ⟨part ++ after, by rw [whole, List.append_assoc]⟩
    have begins' : front <+: t := ⟨part ++ back, by rw [whole', List.append_assoc]⟩
    obtain ⟨more, rfl⟩ := List.prefix_of_prefix_length_le begins begins' (length_le_of_cut? found front back whole')
    rw [List.flatMap_append, List.length_append]
    exact Nat.le_add_right ..

theorem nowhere_of_cut? {part t : Text} (none : cut? part t = none) (i : Nat) :
    ¬ OccursAt (part.flatMap code) (t.flatMap code) i := by
  have present : part ≠ [] := by
    rintro rfl
    exact cut?_eq_none.1 none List.nil_infix
  rw [sync.occursAt_iff present]
  rintro ⟨before, after, whole, -⟩
  exact cut?_eq_none.1 none ⟨before, after, whole.symm⟩

/-- The pieces of a text are one more than the places of the separator. -/
theorem length_piecesBetween [DecidableEq α] {sep : Text} (present : sep ≠ []) (t : Text) :
    (piecesBetween sep present t).length = occurrences (sep.flatMap code) 0 (t.flatMap code) + 1 := by
  fun_induction piecesBetween sep present t with
  | case1 t none => rw [occurrences_eq_zero (sync.nowhere_of_cut? none), List.length_singleton]
  | case2 t before after found ih =>
    have first := (sync.first_of_cut? found).2
    have units : sep.flatMap code ≠ [] := by
      obtain ⟨c, others, rfl⟩ := List.exists_cons_of_ne_nil present
      obtain ⟨a, rest, lead, -, -⟩ := sync.shape c
      simp [lead]
    rw [cut?_eq found, List.flatMap_append, List.flatMap_append] at first ⊢
    rw [List.length_cons, ih, occurrences_append units first]

end Synchronous

namespace Text

theorem piecesBetween_ne_nil {sep : Text} (present : sep ≠ []) (t : Text) : piecesBetween sep present t ≠ [] := by
  unfold piecesBetween
  split <;> exact List.cons_ne_nil _ _

/-- Nothing is lost between the pieces. -/
theorem join_piecesBetween {sep : Text} (present : sep ≠ []) (t : Text) : join sep (piecesBetween sep present t) = t := by
  fun_induction piecesBetween sep present t with
  | case1 t none => rfl
  | case2 t before after found ih =>
    rw [join.eq_3 sep before _ (piecesBetween_ne_nil present after), ih, cut?_eq found]

theorem length_bytes (t : Text) : (bytes t).length = byteLength t := by
  induction t with
  | nil => rfl
  | cons c t ih =>
    rw [byteLength_cons, ← ih, bytes, List.flatMap_cons, List.length_append, String.length_utf8EncodeChar]
    rfl

/-- What is first among the bytes is first among the units. -/
theorem unitPlace?_eq (part t : Text) : unitPlace? part t = .ok ((cut? part t).map fun cut => unitLength cut.1) := by
  unfold unitPlace?
  cases found : cut? part t with
  | none =>
    rw [bytes, bytes, firstPlace?_eq_none (synchronous_bytes.nowhere_of_cut? found)]
    rfl
  | some cut =>
    obtain ⟨before, after⟩ := cut
    obtain ⟨here, first⟩ := synchronous_bytes.first_of_cut? found
    have front : slice t 0 (byteLength before) = .ok before :=
      slice_eq_ok_iff.2 ⟨[], part ++ after, by rw [cut?_eq found]; simp, rfl, rfl⟩
    have place := firstPlace?_eq_some here first
    have offset : (before.flatMap String.utf8EncodeChar).length = byteLength before := length_bytes before
    rw [offset] at place
    simp only [bytes, place, bind, Except.bind, front]
    rfl

end Text
end ProxyRouting
