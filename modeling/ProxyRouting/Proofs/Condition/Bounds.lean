import ProxyRouting.Proofs.Condition.Defect
import ProxyRouting.Proofs.Condition.Session
import ProxyRouting.Proofs.Condition.SubnetText

/-!
Conditions that were read from a text never fail. Whatever the text says, their fields are within the bounds of the data
model (`withinBounds_of_read`), an address in its canonical text among them, and within these bounds every condition
has an analysis. A session that brings in no other conditions keeps to them step by step, so nothing that is asked in it
fails (`succeeds_of_read`).
-/
namespace ProxyRouting
open Text

namespace Condition

/-- The fields are within their bounds: an address with a length that its family has; levels that a 32-bit number counts
    from one; days of the week, or a unit for each of them and no tilde; hours of the day. -/
def WithinBounds : Condition → Prop
  | .ip address length => ∃ a : Ip.Address, address = a.toText ∧ length.toNat ≤ a.width
  | .hostLevels min max => (1 ≤ min.toNat ∧ min.toNat ≤ 2 ^ 32 - 1) ∧ 1 ≤ max.toNat ∧ max.toNat ≤ 2 ^ 32 - 1
  | .weekday mask first last => (first.toNat ≤ 6 ∧ last.toNat ≤ 6) ∧ ∀ days ∈ mask, unitLength days = 7 ∧ '~' ∉ days
  | .time first last => first.toNat ≤ 23 ∧ last.toNat ≤ 23
  | _ => True

theorem withinBounds_ip (n : Ip.Network) : WithinBounds (.ip n.address.toText (UInt8.ofNat n.length)) := by
  refine ⟨n.address, rfl, ?_⟩
  rw [UInt8.toNat_ofNat_of_lt' (Ip.length_lt_of_network n)]
  exact n.length_le

theorem withinBounds_ofDetail (k : ConditionKind) (t : Text) : WithinBounds (ofDetail k t) := by
  cases k with
  | ip =>
    rw [ofDetail, ipOfText]
    split
    · next n _ => exact withinBounds_ip n
    · exact withinBounds_ip ⟨.v4 0, 0, Nat.zero_le _⟩
  | hostLevels =>
    have most (n : UInt32) : n.toNat ≤ 2 ^ 32 - 1 := Nat.le_sub_one_of_lt n.toNat_lt
    exact ⟨⟨levelBound_pos _, most _⟩, levelBound_pos _, most _⟩
  | weekday =>
    rw [ofDetail, weekdayOfText]
    split
    · next mask =>
      refine ⟨⟨Nat.zero_le 6, Nat.zero_le 6⟩, ?_⟩
      rintro days ⟨⟩
      exact ⟨mask.2, mask.1⟩
    · refine ⟨⟨boundWithin_le (by decide) _, boundWithin_le (by decide) _⟩, ?_⟩
      rintro days ⟨⟩
  | time => exact ⟨boundWithin_le (by decide) _, boundWithin_le (by decide) _⟩
  | _ => trivial

theorem withinBounds_of_read {t : Text} {c : Condition} (read : ofText? t = some c) : c.WithinBounds := by
  obtain ⟨k, -, rfl⟩ := Option.map_eq_some_iff.1 read
  exact withinBounds_ofDetail k _

theorem maskPlain_of_withinBounds {c : Condition} (within : c.WithinBounds) : c.MaskPlain := by
  cases c with
  | weekday mask first last => exact fun days member => (within.2 days member).2
  | _ => trivial

/-- Within the bounds there is always an analysis. -/
theorem analyze_of_withinBounds {c : Condition} (within : c.WithinBounds) : ∃ a, c.analyze = .ok a := by
  cases c with
  | ip address length =>
    obtain ⟨a, rfl, fits⟩ := within
    have network := ofFields_network ⟨a, length.toNat, fits⟩
    rw [UInt8.ofNat_toNat] at network
    exact ⟨_, by rw [analyze, network, Except.map]⟩
  | _ => exact ⟨_, rfl⟩

end Condition

/-- A condition that the step brings in is within the bounds. -/
def SessionStep.WithinBounds : SessionStep → Prop
  | replace c => c.WithinBounds
  | _ => True

/-- A condition that the step brings in was read from a text. -/
def SessionStep.BringsRead : SessionStep → Prop
  | replace c => ∃ t, Condition.ofText? t = some c
  | _ => True

theorem SessionStep.withinBounds_of_bringsRead {step : SessionStep} (read : step.BringsRead) : step.WithinBounds := by
  cases step with
  | replace c =>
    obtain ⟨t, read⟩ := read
    exact Condition.withinBounds_of_read read
  | _ => trivial

namespace LiveCondition

/-- A sound condition within the bounds. -/
structure Steady (l : LiveCondition) : Prop where
  sound : l.Sound
  within : l.condition.WithinBounds

theorem steady_fresh {c : Condition} (within : c.WithinBounds) : Steady (fresh c) :=
  ⟨sound_fresh (Condition.maskPlain_of_withinBounds within), within⟩

theorem steady_perform {l : LiveCondition} (steady : l.Steady) {step : SessionStep} (within : step.WithinBounds) :
    (l.perform step).2.Steady := by
  have plain : step.MaskPlain := by
    cases step with
    | replace c => exact Condition.maskPlain_of_withinBounds within
    | _ => trivial
  refine ⟨sound_perform steady.sound plain, ?_⟩
  rw [condition_perform]
  cases step with
  | replace c => exact within
  | _ => exact steady.within

/-- Nothing that is asked of a steady condition fails. -/
theorem perform_succeeds {l : LiveCondition} (steady : l.Steady) (step : SessionStep) : ¬ (l.perform step).1.Failed := by
  obtain ⟨a, analyzed⟩ := Condition.analyze_of_withinBounds steady.within
  rcases analyze_cases steady.sound with ⟨r, cache, run, -, -, -⟩ | ⟨e, -, failed⟩
  · intro failed
    cases step with
    | isMatch request now => simp [perform, isMatch, run, SessionAnswer.Failed, Except.map] at failed
    | compile =>
      simp only [perform, compile, run] at failed
      split at failed <;> cases failed
    | analyze => simp [perform, run, SessionAnswer.Failed] at failed
    | _ => cases failed
  · rw [analyzed] at failed
    cases failed

theorem session_succeeds {l : LiveCondition} (steady : l.Steady) {steps : List SessionStep}
    (within : ∀ step ∈ steps, step.WithinBounds) : ∀ event ∈ l.session steps, ¬ event.answer.Failed := by
  intro event member
  obtain ⟨before, answer, -⟩ := session_invariant Steady SessionStep.WithinBounds
    (fun _ _ steady within => steady_perform steady within) steady within event member
  rw [answer]
  exact perform_succeeds before event.step

end LiveCondition

namespace Condition

/-- A condition that was read from a text has its fields within their bounds, answers for every request at every time,
    has an expression, and is not found invalid. Of a live condition that starts as this one, and to which other
    conditions come only as they were read from texts, nothing can be asked that fails. -/
theorem succeeds_of_read {t : Text} {c : Condition} (read : ofText? t = some c) :
    c.WithinBounds ∧ (∀ r now, ∃ b, c.isMatch r now = .ok b) ∧ (∃ e, c.toExpr = .ok e) ∧
      (∀ e, c.defect? ≠ some (.invalid e)) ∧
      ∀ steps : List SessionStep, (∀ step ∈ steps, step.BringsRead) →
        ∀ event ∈ LiveCondition.session (.fresh c) steps, ¬ event.answer.Failed := by
  have within := withinBounds_of_read read
  obtain ⟨a, analyzed⟩ := analyze_of_withinBounds within
  refine ⟨within, fun r now => ⟨a.isMatch r now, ?_⟩, ⟨a.toExpr, ?_⟩, fun e shown => ?_, fun steps brought => ?_⟩
  · rw [Condition.isMatch, analyzed, Except.map]
  · rw [Condition.toExpr, analyzed, Except.map]
  · rw [defect?, analyzed] at shown
    rcases defect?_cases shown with ⟨same, _⟩ | ⟨same, _⟩ <;> cases same
  · exact LiveCondition.session_succeeds (LiveCondition.steady_fresh within)
      fun step member => SessionStep.withinBounds_of_bringsRead (brought step member)

/-- Levels out of bounds are brought into them, and a network that is none is taken for all of IPv4. -/
theorem succeeds_of_read_lenient :
    ofText? "Lv: -7~99999999999999999999".toList = some (.hostLevels 1 0xFFFFFFFF) ∧
      ofText? "ip: 10.0.0.0/33".toList = some (.ip "0.0.0.0".toList 0) ∧
      (hostLevels 1 0xFFFFFFFF).WithinBounds ∧
      ∀ event ∈ LiveCondition.session (.fresh (.hostLevels 1 0xFFFFFFFF))
          [.compile, .replace (.ip "0.0.0.0".toList 0), .analyze], ¬ event.answer.Failed := by
  have read : ofText? "Lv: -7~99999999999999999999".toList = some (.hostLevels 1 0xFFFFFFFF) := by decide +kernel
  have other : ofText? "ip: 10.0.0.0/33".toList = some (.ip "0.0.0.0".toList 0) := by decide +kernel
  obtain ⟨within, -, -, -, session⟩ := succeeds_of_read read
  refine ⟨read, other, within, session _ ?_⟩
  simp only [List.forall_mem_cons]
  exact ⟨trivial, ⟨_, other⟩, trivial, nofun⟩

end Condition
end ProxyRouting
