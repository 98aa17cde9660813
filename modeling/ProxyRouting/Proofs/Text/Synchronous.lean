import ProxyRouting.Proofs.Text.Cut
import ProxyRouting.Text.Units

/-!
Texts and their code units. A code is synchronous if the first unit of a character is none of the later ones of any
character and no character's units begin those of another, as it is for UTF-8 (`synchronous_bytes`) and for UTF-16
(`synchronous_units`). The units of a text that is not empty then stand in those of another one only where the text
stands in it (`occursAt_iff`).
-/
namespace ProxyRouting

/-- A part stands at an index of a list. -/
def OccursAt {α : Type} (part whole : List α) (i : Nat) : Prop :=
  ∃ before after, whole = before ++ part ++ after ∧ before.length = i

/-- Each character has units, of which just the first one is a lead, and they do not begin those of another. -/
structure Synchronous {α : Type} (code : Char → List α) (Lead : α → Prop) : Prop where
  shape : ∀ c, ∃ a rest, code c = a :: rest ∧ Lead a ∧ ∀ b ∈ rest, ¬ Lead b
  prefix_free : ∀ {c d}, code c <+: code d → c = d

namespace Synchronous
variable {α : Type} {code : Char → List α} {Lead : α → Prop} (sync : Synchronous code Lead)
include sync

/-- Before a lead, and at the end, the units of a text are those of its front. -/
theorem cut {t : Text} {before rest : List α} (whole : t.flatMap code = before ++ rest)
    (lead : ∀ a ∈ rest.head?, Lead a) : ∃ u v, t = u ++ v ∧ u.flatMap code = before ∧ v.flatMap code = rest := by
  induction t generalizing before with
  | nil =>
    obtain ⟨rfl, rfl⟩ := List.append_eq_nil_iff.1 whole.symm
    exact ⟨[], [], rfl, rfl, rfl⟩
  | cons c t ih =>
    cases before with
    | nil => exact ⟨[], c :: t, rfl, rfl, whole⟩
    | cons b before =>
      obtain ⟨a, later, units, -, trail⟩ := sync.shape c
      rw [List.flatMap_cons, units, List.cons_append, List.cons_append] at whole
      obtain ⟨rfl, trailing⟩ := List.cons.inj whole
      rcases List.append_eq_append_iff.1 trailing with ⟨more, rfl, tail⟩ | ⟨more, rfl, tail⟩
      · obtain ⟨u, v, rfl, rfl, behind⟩ := ih tail
        exact ⟨c :: u, v, rfl, by rw [List.flatMap_cons, units, List.cons_append], behind⟩
      · -- what is left of the character's units would begin the rest, and it is no lead
        cases more with
        | nil => exact ⟨[c], t, rfl, by simp [units], by simpa using tail.symm⟩
        | cons x more => exact absurd (lead x (by simp [tail])) (trail x (by simp))

/-- A text whose units begin those of another one begins it. -/
theorem behind {part t : Text} {after : List α} (whole : t.flatMap code = part.flatMap code ++ after) :
    ∃ rest, t = part ++ rest ∧ rest.flatMap code = after := by
  induction part generalizing t with
  | nil => exact ⟨t, rfl, whole⟩
  | cons c part ih =>
    rw [List.flatMap_cons, List.append_assoc] at whole
    cases t with
    | nil =>
      obtain ⟨a, later, units, -, -⟩ := sync.shape c
      rw [units] at whole
      cases whole
    | cons d t =>
      have first : code c <+: (d :: t).flatMap code := ⟨_, whole.symm⟩
      have other : code d <+: (d :: t).flatMap code := ⟨_, List.flatMap_cons.symm⟩
      have same : c = d := by
        rcases List.prefix_or_prefix_of_prefix first other with begins | begins
        · exact sync.prefix_free begins
        · exact (sync.prefix_free begins).symm
      subst same
      obtain ⟨rest, rfl, behind⟩ := ih (List.append_cancel_left (List.flatMap_cons ▸ whole))
      exact ⟨rest, rfl, behind⟩

/-- Units of a text stand where the text stands. -/
theorem occursAt_iff {part t : Text} (present : part ≠ []) (i : Nat) :
    OccursAt (part.flatMap code) (t.flatMap code) i ↔
      ∃ before after, t = before ++ part ++ after ∧ (before.flatMap code).length = i := by
  constructor
  · rintro ⟨before, after, whole, rfl⟩
    obtain ⟨c, others, rfl⟩ := List.exists_cons_of_ne_nil present
    obtain ⟨a, later, units, first, -⟩ := sync.shape c
    rw [List.append_assoc] at whole
    have lead : ∀ x ∈ ((c :: others).flatMap code ++ after).head?, Lead x := by
      rw [List.flatMap_cons, units]
      rintro x ⟨⟩
      exact first
    obtain ⟨u, v, rfl, rfl, back⟩ := sync.cut whole lead
    obtain ⟨rest, rfl, -⟩ := sync.behind back
    exact ⟨u, rest, by rw [List.append_assoc], rfl⟩
  · rintro ⟨before, after, rfl, rfl⟩
    exact ⟨before.flatMap code, after.flatMap code, by rw [List.flatMap_append, List.flatMap_append], rfl⟩

end Synchronous

/-- No character is a surrogate. -/
theorem toNat_range (c : Char) : c.toNat < 0xD800 ∨ 0xDFFF < c.toNat ∧ c.toNat < 0x110000 := c.valid

theorem synchronous_units : Synchronous charUnits fun unit => ¬ (0xDC00 ≤ unit ∧ unit ≤ 0xDFFF) where
  shape c := by
    have valid := toNat_range c
    unfold charUnits
    simp only
    split
    · exact ⟨c.toNat, [], rfl, by omega, by simp⟩
    · refine ⟨_, _, rfl, by omega, ?_⟩
      simp only [List.mem_singleton, forall_eq, not_not]
      omega
  prefix_free {c d} begins := by
    have valid := toNat_range c
    have valid' := toNat_range d
    refine Char.toNat_inj.1 ?_
    unfold charUnits at begins
    simp only at begins
    -- a high surrogate is no character on its own, and a pair has both parts of its number
    split at begins <;> split at begins <;>
      simp only [List.cons_prefix_cons, List.nil_prefix, List.prefix_nil, and_true, and_false, reduceCtorEq] at begins <;>
      omega

theorem synchronous_bytes : Synchronous String.utf8EncodeChar UInt8.IsUTF8FirstByte where
  shape c := by
    obtain ⟨a, rest, units⟩ := List.exists_cons_of_ne_nil (String.utf8EncodeChar_ne_nil (c := c))
    have lead (i : Nat) (inside : i < (String.utf8EncodeChar c).length) :
        (String.utf8EncodeChar c)[i].IsUTF8FirstByte ↔ i = 0 := UInt8.isUTF8FirstByte_getElem_utf8EncodeChar
    simp only [units] at lead
    refine ⟨a, rest, units, (lead 0 (by simp)).2 rfl, fun b member => ?_⟩
    obtain ⟨i, inside, rfl⟩ := List.mem_iff_getElem.1 member
    exact mt (lead (i + 1) (by simpa using inside)).1 (Nat.succ_ne_zero i)
  prefix_free {c d} begins := by
    obtain ⟨rest, whole⟩ := begins
    have first := ByteArray.utf8DecodeChar?_utf8EncodeChar_append (b := rest.toByteArray) (c := c)
    have second := ByteArray.utf8DecodeChar?_utf8EncodeChar_append (b := ByteArray.empty) (c := d)
    rw [← List.toByteArray_append, whole] at first
    rw [ByteArray.append_empty, first] at second
    exact Option.some.inj second

end ProxyRouting
