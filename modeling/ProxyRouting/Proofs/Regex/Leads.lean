import Mathlib.Logic.Function.Iterate
import ProxyRouting.Regex.Starts

/-!
What a pattern means: which positions of a text it leads to from which. `Leads` says so pattern by
pattern, without an order of preference and without a search. The search of a whole text at once finds
exactly the starts of the ways that a pattern has into the given positions (`starts_follows`), so that a
pattern without back references finds something in a text when it leads from one of its positions to
another (`finds_iff`).
-/
namespace ProxyRouting.Regex

/-- So many steps lead from one position to another. -/
def Rounds (step : Nat → Nat → Prop) : Nat → Nat → Nat → Prop
  | 0, i, j => i = j
  | n + 1, i, j => ∃ k, step i k ∧ Rounds step n k j

/-- The pattern leads from one position of the text to another. Back references, whose meaning is not
    one of positions alone, lead nowhere. -/
def Pattern.Leads (text : Text) : Pattern → Nat → Nat → Prop
  | .empty, i, j => i = j
  | .start, i, j => i = j ∧ i = 0
  | .finish, i, j => i = j ∧ i = text.length
  | .char c, i, j => j = i + 1 ∧ text[i]? = some c
  | .oneOf ranges, i, j => j = i + 1 ∧ ∃ c, text[i]? = some c ∧ ranges.any (·.contains c)
  | .seq p q, i, j => ∃ k, p.Leads text i k ∧ q.Leads text k j
  | .alt p q, i, j => p.Leads text i j ∨ q.Leads text i j
  | .loop p least most _, i, j =>
    ∃ n, least ≤ n ∧ (∀ m, most = some m → n ≤ max least m) ∧ Rounds (p.Leads text) n i j
  | .group _ p, i, j => p.Leads text i j
  | .backref _, _, _ => False
  | .look false p, i, j => i = j ∧ ∃ k ≤ text.length, p.Leads text i k
  | .look true p, i, j => i = j ∧ ¬ ∃ k ≤ text.length, p.Leads text i k
  | .behind false width p, i, j => i = j ∧ width ≤ i ∧ ∃ k ≤ text.length, p.Leads text (i - width) k
  | .behind true width p, i, j => i = j ∧ ¬ (width ≤ i ∧ ∃ k ≤ text.length, p.Leads text (i - width) k)

theorem rounds_add {step : Nat → Nat → Prop} {m n i j : Nat} :
    Rounds step (m + n) i j ↔ ∃ k, Rounds step m i k ∧ Rounds step n k j := by
  induction m generalizing i with
  | zero => simp [Rounds]
  | succ m ih =>
    rw [Nat.succ_add]
    simp only [Rounds, ih]
    constructor
    · rintro ⟨k, first, l, others, last⟩
      exact ⟨l, ⟨k, first, others⟩, last⟩
    · rintro ⟨l, ⟨k, first, others⟩, last⟩
      exact ⟨k, first, l, others, last⟩

theorem rounds_le {step : Nat → Nat → Prop} (forward : ∀ i j, step i j → i ≤ j) {n i j : Nat}
    (way : Rounds step n i j) : i ≤ j := by
  induction n generalizing i with
  | zero => exact Nat.le_of_eq way
  | succ n ih =>
    obtain ⟨k, first, others⟩ := way
    exact Nat.le_trans (forward i k first) (ih others)

/-- Steps that stay where they are can be left out, and no more others fit than there are positions. -/
theorem rounds_shorten {step : Nat → Nat → Prop} (forward : ∀ i j, step i j → i ≤ j) {n i j : Nat}
    (way : Rounds step n i j) : ∃ m, m ≤ n ∧ m ≤ j - i ∧ Rounds step m i j := by
  induction n generalizing i with
  | zero => exact ⟨0, Nat.le_refl _, Nat.zero_le _, way⟩
  | succ n ih =>
    obtain ⟨k, first, others⟩ := way
    obtain ⟨m, fewer, room, shorter⟩ := ih others
    have before := forward i k first
    have behind := rounds_le forward others
    rcases Nat.eq_or_lt_of_le before with same | moved
    · subst same
      exact ⟨m, by omega, room, shorter⟩
    · exact ⟨m + 1, by omega, by omega, k, first, shorter⟩

theorem rounds_congr {step other : Nat → Nat → Prop} (same : ∀ i j, step i j ↔ other i j) (n i j : Nat) :
    Rounds step n i j ↔ Rounds other n i j := by
  have equal : step = other := by
    funext i j
    exact propext (same i j)
  rw [equal]

/-- No pattern leads backwards. -/
theorem Pattern.leads_le {text : Text} (p : Pattern) {i j : Nat} (way : p.Leads text i j) : i ≤ j := by
  induction p generalizing i j with
  | empty => exact Nat.le_of_eq way
  | start => exact Nat.le_of_eq way.1
  | finish => exact Nat.le_of_eq way.1
  | char c => rw [way.1]; exact Nat.le_succ i
  | oneOf ranges => rw [way.1]; exact Nat.le_succ i
  | seq p q ihp ihq =>
    obtain ⟨k, first, second⟩ := way
    exact Nat.le_trans (ihp first) (ihq second)
  | alt p q ihp ihq => exact way.elim ihp ihq
  | loop p least most greedy ih =>
    obtain ⟨n, _, _, rounds⟩ := way
    exact rounds_le (fun _ _ => ih) rounds
  | group index p ih => exact ih way
  | backref index => exact way.elim
  | look negated p => cases negated <;> exact Nat.le_of_eq way.1
  | behind negated width p => cases negated <;> exact Nat.le_of_eq way.1

namespace Positions

/-- The position belongs to the set. -/
def Has (s : Positions) (i : Nat) : Prop := s[i]? = some true

theorem has_lt {s : Positions} {i : Nat} (h : s.Has i) : i < s.length := by
  obtain ⟨inside, _⟩ := List.getElem?_eq_some_iff.1 h
  exact inside

theorem has_all (text : Text) (i : Nat) : (all text).Has i ↔ i ≤ text.length := by
  simp only [Has, all, List.getElem?_replicate]
  split <;> simp <;> omega

theorem length_none (s : Positions) : s.none.length = s.length := by simp [none]

theorem has_none (s : Positions) (i : Nat) : ¬ s.none.Has i := by
  rw [Has, none, List.getElem?_map]
  cases s[i]? <;> simp

theorem length_zipWith {f : Bool → Bool → Bool} {s t : Positions} (same : s.length = t.length) :
    (List.zipWith f s t).length = t.length := by
  simp [same]

theorem has_union {s t : Positions} (same : s.length = t.length) (i : Nat) :
    (s.union t).Has i ↔ s.Has i ∨ t.Has i := by
  simp only [Has, union, List.getElem?_zipWith]
  by_cases inside : i < s.length
  · have inside' : i < t.length := same ▸ inside
    simp [List.getElem?_eq_getElem inside, List.getElem?_eq_getElem inside']
  · have outside : ¬ i < t.length := same ▸ inside
    simp [List.getElem?_eq_none (Nat.le_of_not_lt inside), List.getElem?_eq_none (Nat.le_of_not_lt outside)]

theorem has_inter {s t : Positions} (same : s.length = t.length) (i : Nat) :
    (s.inter t).Has i ↔ s.Has i ∧ t.Has i := by
  simp only [Has, inter, List.getElem?_zipWith]
  by_cases inside : i < s.length
  · have inside' : i < t.length := same ▸ inside
    simp [List.getElem?_eq_getElem inside, List.getElem?_eq_getElem inside']
  · simp [List.getElem?_eq_none (Nat.le_of_not_lt inside)]

theorem has_diff {s t : Positions} (same : s.length = t.length) (i : Nat) :
    (s.diff t).Has i ↔ s.Has i ∧ ¬ t.Has i := by
  simp only [Has, diff, List.getElem?_zipWith]
  by_cases inside : i < s.length
  · have inside' : i < t.length := same ▸ inside
    simp [List.getElem?_eq_getElem inside, List.getElem?_eq_getElem inside']
  · simp [List.getElem?_eq_none (Nat.le_of_not_lt inside)]

theorem length_first (s : Positions) : s.first.length = s.length := by
  cases s <;> simp [first, length_none]

theorem has_first (s : Positions) (i : Nat) : s.first.Has i ↔ i = 0 ∧ s.Has i := by
  cases s with
  | nil => simp [first, Has]
  | cons flag s =>
    cases i with
    | zero => simp [first, Has]
    | succ i => simpa [first, Has] using has_none s i

theorem length_last (s : Positions) : s.last.length = s.length := by
  induction s with
  | nil => rfl
  | cons flag s ih =>
    cases s with
    | nil => rfl
    | cons next s => simpa [last] using ih

theorem has_last (s : Positions) (i : Nat) : s.last.Has i ↔ i + 1 = s.length ∧ s.Has i := by
  induction s generalizing i with
  | nil => simp [last, Has]
  | cons flag s ih =>
    cases s with
    | nil =>
      cases i with
      | zero => simp [last, Has]
      | succ i => simp [last, Has]
    | cons next s =>
      cases i with
      | zero => simp [last, Has]
      | succ i => simpa [last, Has] using ih i

theorem length_before (holds : Char → Bool) (text : Text) (s : Positions) :
    (s.before holds text).length = s.length := by
  fun_induction before holds text s with
  | case1 c text head flag s ih => simpa using ih
  | case2 => exact length_none _

theorem has_before (holds : Char → Bool) (text : Text) {s : Positions} (full : s.length = text.length + 1)
    (i : Nat) : (s.before holds text).Has i ↔ ∃ c, text[i]? = some c ∧ holds c ∧ s.Has (i + 1) := by
  induction text generalizing s i with
  | nil =>
    match s, full with
    | [flag], _ => simpa [before] using has_none [flag] i
  | cons c text ih =>
    match s, full with
    | head :: flag :: s, full =>
      have rest := ih (s := flag :: s) (by simpa using full)
      cases i with
      | zero => simp [before, Has, and_comm]
      | succ i => simpa [before, Has] using rest i

theorem length_behind (width : Nat) (s : Positions) : (s.behind width).length = s.length := by
  simp [behind]

theorem has_behind (width : Nat) (s : Positions) (i : Nat) :
    (s.behind width).Has i ↔ i < s.length ∧ width ≤ i ∧ s.Has (i - width) := by
  simp only [Has, behind, List.getElem?_take, List.getElem?_append, List.length_replicate,
    List.getElem?_replicate]
  by_cases inside : i < s.length
  · by_cases reached : width ≤ i
    · have shift : min width s.length = width := by omega
      have past : ¬ i < width := by omega
      simp [inside, reached, shift, past]
    · have near : i < min width s.length := by omega
      simp [inside, reached, near]
  · simp [inside]

/-! ## Repeated steps -/

theorem replaced_eq_iterate (step : Positions → Positions) (rounds : Nat) (s : Positions) :
    replaced step rounds s = step^[rounds] s := by
  induction rounds generalizing s with
  | zero => rfl
  | succ rounds ih =>
    simp only [replaced, Function.iterate_succ, Function.comp_apply]
    split
    · next fixed => rw [fixed, Function.iterate_fixed fixed]
    · exact ih (step s)

variable {step : Positions → Positions} {size : Nat} {way : Nat → Nat → Prop}

/-- The step goes one way of the relation backwards, whatever the set. -/
def Follows (step : Positions → Positions) (size : Nat) (way : Nat → Nat → Prop) : Prop :=
  ∀ s : Positions, s.length = size → (step s).length = size ∧
    ∀ i, (step s).Has i ↔ ∃ j, way i j ∧ s.Has j

theorem stay_follows : Follows (fun s => s) size fun i j => i = j :=
  fun _ full => ⟨full, fun i => by simp⟩

/-- One step after another goes the way of the last to be taken first. -/
theorem after_follows {step' : Positions → Positions} {way' : Nat → Nat → Prop} (follows : Follows step size way)
    (follows' : Follows step' size way') :
    Follows (fun s => step (step' s)) size fun i j => ∃ k, way i k ∧ way' k j := by
  intro s full
  obtain ⟨length', has'⟩ := follows' s full
  obtain ⟨length, has⟩ := follows (step' s) length'
  refine ⟨length, fun i => ?_⟩
  simp only [has i, has']
  constructor
  · rintro ⟨k, first, j, second, reached⟩
    exact ⟨j, ⟨k, first, second⟩, reached⟩
  · rintro ⟨j, ⟨k, first, second⟩, reached⟩
    exact ⟨k, first, j, second, reached⟩

theorem union_follows {step' : Positions → Positions} {way' : Nat → Nat → Prop} (follows : Follows step size way)
    (follows' : Follows step' size way') :
    Follows (fun s => (step s).union (step' s)) size fun i j => way i j ∨ way' i j := by
  intro s full
  obtain ⟨length, has⟩ := follows s full
  obtain ⟨length', has'⟩ := follows' s full
  have same := length.trans length'.symm
  refine ⟨(length_zipWith same).trans length', fun i => ?_⟩
  simp only [has_union same, has i, has' i, or_and_right, exists_or]

/-- A step that only drops positions goes nowhere from those it keeps. -/
theorem kept_follows {holds : Nat → Prop} (length : ∀ s : Positions, s.length = size → (step s).length = size)
    (kept : ∀ s : Positions, s.length = size → ∀ i, (step s).Has i ↔ s.Has i ∧ holds i) :
    Follows step size fun i j => i = j ∧ holds i := by
  intro s full
  refine ⟨length s full, fun i => ?_⟩
  rw [kept s full i]
  constructor
  · rintro ⟨here, good⟩
    exact ⟨i, ⟨rfl, good⟩, here⟩
  · rintro ⟨j, ⟨rfl, good⟩, here⟩
    exact ⟨here, good⟩

theorem inter_follows {t : Positions} {holds : Nat → Prop} (full : t.length = size)
    (has : ∀ i < size, t.Has i ↔ holds i) : Follows (fun s => s.inter t) size fun i j => i = j ∧ holds i := by
  refine kept_follows (fun s full' => (length_zipWith (full'.trans full.symm)).trans full) fun s full' i => ?_
  rw [has_inter (full'.trans full.symm)]
  exact and_congr_right fun here => has i (full' ▸ has_lt here)

theorem diff_follows {t : Positions} {holds : Nat → Prop} (full : t.length = size)
    (has : ∀ i < size, t.Has i ↔ holds i) : Follows (fun s => s.diff t) size fun i j => i = j ∧ ¬ holds i := by
  refine kept_follows (fun s full' => (length_zipWith (full'.trans full.symm)).trans full) fun s full' i => ?_
  rw [has_diff (full'.trans full.symm)]
  exact and_congr_right fun here => not_congr (has i (full' ▸ has_lt here))

/-- From the whole text a step goes back to wherever a way to some position begins. -/
theorem follows_all {text : Text} (follows : Follows step (text.length + 1) way) :
    (step (all text)).length = text.length + 1 ∧ ∀ i, (step (all text)).Has i ↔ ∃ k ≤ text.length, way i k := by
  obtain ⟨length, has⟩ := follows (all text) (by simp [all])
  refine ⟨length, fun i => (has i).trans ?_⟩
  simp only [has_all, and_comm]

theorem replaced_follows (follows : Follows step size way) (rounds : Nat) :
    Follows (replaced step rounds) size (Rounds way rounds) := by
  induction rounds with
  | zero => exact fun s full => ⟨full, fun i => by simp [replaced, Rounds]⟩
  | succ rounds ih =>
    intro s full
    obtain ⟨length, has⟩ := ih s full
    have again := follows (replaced step rounds s) length
    have unrolled : replaced step (rounds + 1) s = step (replaced step rounds s) := by
      simp only [replaced_eq_iterate, Function.iterate_succ_apply']
    rw [unrolled]
    refine ⟨again.1, fun i => ?_⟩
    rw [again.2 i]
    constructor
    · rintro ⟨k, first, others⟩
      obtain ⟨j, rest, reached⟩ := (has k).1 others
      exact ⟨j, ⟨k, first, rest⟩, reached⟩
    · rintro ⟨j, ⟨k, first, rest⟩, reached⟩
      exact ⟨k, first, (has k).2 ⟨j, rest, reached⟩⟩

theorem rounds_reflexive (rounds i j : Nat) :
    Rounds (fun i j => i = j ∨ way i j) rounds i j ↔ ∃ n ≤ rounds, Rounds way n i j := by
  induction rounds generalizing i with
  | zero => simp [Rounds]
  | succ rounds ih =>
    simp only [Rounds, ih]
    constructor
    · rintro ⟨k, rfl | moved, n, few, rest⟩
      · exact ⟨n, by omega, rest⟩
      · exact ⟨n + 1, by omega, k, moved, rest⟩
    · rintro ⟨n, few, rest⟩
      cases n with
      | zero => exact ⟨i, .inl rfl, 0, by omega, rest⟩
      | succ n =>
        obtain ⟨k, moved, rest⟩ := rest
        exact ⟨k, .inr moved, n, by omega, rest⟩

theorem grown_follows (follows : Follows step size way) (rounds : Nat) :
    Follows (grown step rounds) size fun i j => ∃ n ≤ rounds, Rounds way n i j := by
  intro s full
  obtain ⟨length, has⟩ := replaced_follows (union_follows stay_follows follows) rounds s full
  refine ⟨length, fun i => ?_⟩
  rw [grown, has i]
  simp only [rounds_reflexive]

end Positions

open Positions

theorem before_follows (text : Text) (holds : Char → Bool) :
    Follows (Positions.before holds text) (text.length + 1) fun i j =>
      j = i + 1 ∧ ∃ c, text[i]? = some c ∧ holds c := by
  intro s full
  refine ⟨(length_before holds text s).trans full, fun i => ?_⟩
  rw [has_before holds text full i]
  constructor
  · rintro ⟨c, here, good, reached⟩
    exact ⟨i + 1, ⟨rfl, c, here, good⟩, reached⟩
  · rintro ⟨j, ⟨rfl, c, here, good⟩, reached⟩
    exact ⟨c, here, good, reached⟩

theorem loop_follows {step : Positions → Positions} {size : Nat} {way : Nat → Nat → Prop}
    (follows : Follows step size way) (forward : ∀ i j, way i j → i ≤ j) (least : Nat) (most : Option Nat) :
    Follows (fun s => replaced step least (grown step ((most.map (· - least)).getD s.length) s)) size fun i j =>
      ∃ n, least ≤ n ∧ (∀ m, most = some m → n ≤ max least m) ∧ Rounds way n i j := by
  intro s full
  obtain ⟨length, has⟩ := grown_follows follows ((most.map (· - least)).getD s.length) s full
  obtain ⟨length', has'⟩ := replaced_follows follows least _ length
  refine ⟨length', fun i => ?_⟩
  rw [has' i]
  constructor
  · rintro ⟨k, needed, reached⟩
    obtain ⟨j, ⟨n, few, further⟩, reached⟩ := (has k).1 reached
    refine ⟨j, ⟨least + n, Nat.le_add_right _ _, ?_, rounds_add.2 ⟨k, needed, further⟩⟩, reached⟩
    rintro m rfl
    simp only [Option.map_some, Option.getD_some] at few
    omega
  · rintro ⟨j, ⟨n, enough, few, rounds⟩, reached⟩
    obtain ⟨m, rfl⟩ := Nat.exists_eq_add_of_le enough
    obtain ⟨k, needed, further⟩ := rounds_add.1 rounds
    refine ⟨k, needed, (has k).2 ⟨j, ?_, reached⟩⟩
    -- Without a bound the way has to be shortened to no more rounds than there are positions.
    obtain ⟨m', fewer, room, shorter⟩ := rounds_shorten forward further
    have inside := has_lt reached
    refine ⟨m', ?_, shorter⟩
    cases most with
    | none => simp only [Option.map_none, Option.getD_none]; omega
    | some most =>
      have := few most rfl
      simp only [Option.map_some, Option.getD_some]
      omega

/-- The search goes exactly the ways of the pattern backwards. -/
theorem starts_follows (text : Text) (p : Pattern) (plain : p.refersBack = false) :
    Follows (p.starts text) (text.length + 1) (p.Leads text) := by
  induction p with
  | empty => exact stay_follows
  | start =>
    exact kept_follows (fun s full => (length_first s).trans full) fun s _ i => (has_first s i).trans and_comm
  | finish =>
    refine kept_follows (fun s full => (length_last s).trans full) fun s full i => ?_
    have last := has_last s i
    rw [full, Nat.add_right_cancel_iff] at last
    exact last.trans and_comm
  | char c => simpa [Pattern.starts, Pattern.Leads] using before_follows text (· = c)
  | oneOf ranges => exact before_follows text fun c => ranges.any (·.contains c)
  | seq p q ihp ihq =>
    simp only [Pattern.refersBack, Bool.or_eq_false_iff] at plain
    have composed := after_follows (ihp plain.1) (ihq plain.2)
    exact composed
  | alt p q ihp ihq =>
    simp only [Pattern.refersBack, Bool.or_eq_false_iff] at plain
    exact union_follows (ihp plain.1) (ihq plain.2)
  | loop p least most greedy ih => exact loop_follows (ih plain) (fun _ _ => p.leads_le) least most
  | group index p ih => exact ih plain
  | backref index => simp [Pattern.refersBack] at plain
  | look negated p ih =>
    obtain ⟨length, has⟩ := follows_all (ih plain)
    cases negated with
    | false => exact inter_follows length fun i _ => has i
    | true => exact diff_follows length fun i _ => has i
  | behind negated width p ih =>
    obtain ⟨length, has⟩ := follows_all (ih plain)
    have length' := (length_behind width _).trans length
    have shifted (i : Nat) (inside : i < text.length + 1) :
        ((p.starts text (.all text)).behind width).Has i ↔ width ≤ i ∧ ∃ k ≤ text.length, p.Leads text (i - width) k := by
      rw [has_behind, length, has]
      exact and_iff_right inside
    cases negated with
    | false => exact inter_follows length' shifted
    | true => exact diff_follows length' shifted

/-- A pattern without back references finds something in a text when it leads somewhere in it. -/
theorem finds_iff (p : Pattern) (plain : p.refersBack = false) (text : Text) :
    p.finds text ↔ ∃ i j, j ≤ text.length ∧ p.Leads text i j := by
  obtain ⟨_, has⟩ := follows_all (starts_follows text p plain)
  simp only [Pattern.finds, plain, Bool.false_eq_true, ↓reduceIte, List.any_eq_true, id, exists_eq_right]
  rw [List.mem_iff_getElem?]
  exact exists_congr has

end ProxyRouting.Regex
