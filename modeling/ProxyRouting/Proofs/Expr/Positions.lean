import ProxyRouting.Proofs.Expr.Strings
import ProxyRouting.Proofs.Text.Places

/-!
Positions in strings. An expression searches a string for the first place of another one in UTF-16 units, and splits it
at every place that is found from the left in these units (`string_positions`). The search may as well go through the
bytes of both and count the units of what precedes.
-/
namespace ProxyRouting.Expr
open Text

/-- The index in a string that stands for a place in it: -1 for none. -/
def indexOfPlace (place : Option Nat) : Int := place.elim (-1) Nat.cast

theorem le_length_of_firstPlace {α : Type} {part whole : List α} {position : Int} (first : FirstPlace part whole position) :
    -1 ≤ position ∧ position ≤ whole.length := by
  cases first with
  | found here _ =>
    obtain ⟨before, after, rfl, rfl⟩ := here
    simp only [List.length_append]
    omega
  | absent => omega

/-- What is searched for is found at its first place, or at no place and with -1 for an answer. -/
theorem indexOf_place (t part : Text) : ∃ place, unitPlace? part t = .ok place ∧
    Value.indexOf t part = .number (Binary64.ofInt (indexOfPlace place)) ∧
    FirstPlace (units part) (units t) (indexOfPlace place) := by
  refine ⟨_, unitPlace?_eq part t, ?_⟩
  unfold Value.indexOf
  cases found : cut? part t with
  | none => exact ⟨rfl, .absent (synchronous_units.nowhere_of_cut? found)⟩
  | some cut =>
    obtain ⟨here, first⟩ := synchronous_units.first_of_cut? found
    exact ⟨congrArg Value.number (Binary64.ofNat_eq _), .found here first⟩

/-- A string that has another one is cut where it stands, and put together from the pieces with it between them. -/
theorem split_pieces {sep : Text} (present : sep ≠ []) (t : Text) :
    (split sep t).length = occurrences (units sep) 0 (units t) + 1 ∧ join sep (split sep t) = t := by
  unfold split
  rw [dif_neg present]
  exact ⟨synchronous_units.length_piecesBetween present t, join_piecesBetween present t⟩

/-- The first place of a string in another one and the pieces between its places are those of their UTF-16 units. -/
theorem string_positions (env : Env) {subject part : Expr} {t n : Text} (receiver : eval env subject = .ok (.string t))
    (argument : eval env part = .ok (.string n)) :
    (∃ place, unitPlace? n t = .ok place ∧ FirstPlace (units n) (units t) (indexOfPlace place) ∧
      eval env (subject.method "indexOf" [part]) = .ok (.number (Binary64.ofInt (indexOfPlace place))) ∧
      (unitLength t ≤ Binary64.exactBound → (Binary64.ofInt (indexOfPlace place)).Stands (indexOfPlace place))) ∧
    (n ≠ [] → ∃ pieces : List Text, eval env (subject.method "split" [part]) = .ok (.array (pieces.map .string)) ∧
      pieces.length = occurrences (units n) 0 (units t) + 1 ∧ join n pieces = t) := by
  obtain ⟨inner, evaluates⟩ := eval_eq
  rw [evaluates] at receiver argument
  have method (m : Method) (known : (Value.string t).method? m.name = some m) :
      eval env (subject.method (String.ofList m.name) [part]) = .ok (Value.callMethod (.string t) m (.string n)) := by
    rw [evaluates]
    exact evalWith_method receiver (by simpa using known) (evalArgs_one argument)
  constructor
  · obtain ⟨place, found, value, first⟩ := indexOf_place t n
    refine ⟨place, found, first, ?_, fun small => Binary64.stands_ofInt ?_⟩
    · rw [← value]
      exact method .indexOf rfl
    · have bounds := le_length_of_firstPlace first
      unfold unitLength at small
      unfold Binary64.exactBound at small ⊢
      omega
  · intro present
    obtain ⟨count, joined⟩ := split_pieces present t
    exact ⟨split n t, method .split rfl, count, joined⟩

/-- Behind a character of two units, the second of two places is overlapped by the first one. -/
theorem string_positions_astral :
    let env := Env.initial (.ofNumbers 2024 1 7 0 0)
    let t := "😀a😀a😀a😀".toList
    let n := "a😀a".toList
    eval env ((Expr.string t).method "indexOf" [.string n]) = .ok (.number (Binary64.ofInt 2)) ∧
    ∃ pieces : List Text, eval env ((Expr.string t).method "split" [.string n]) = .ok (.array (pieces.map .string)) ∧
      pieces.length = 2 ∧ join n pieces = t := by
  intro env t n
  have literal (u : Text) : eval env (.string u) = .ok (.string u) := by
    obtain ⟨inner, evaluates⟩ := eval_eq
    rw [evaluates, evalWith_string]
  obtain ⟨⟨place, found, -, index, -⟩, pieces⟩ := string_positions env (literal t) (literal n)
  have second : unitPlace? n t = .ok (some 2) := by rfl
  cases found.symm.trans second
  have once : occurrences (units n) 0 (units t) = 1 := by decide
  rw [once] at pieces
  exact ⟨index, pieces (by decide)⟩

end ProxyRouting.Expr
