import ProxyRouting.Proofs.Condition.Defect

/-!
Diagnoses of lists. Whatever is reported of a condition holds of it: it is refused with the error that is named, or it
matches nothing; the places ascend, and no condition without an analysis is passed over (`problems_sound`). Of the
ranges just those are reported that match nothing, except for hours that no clock shows
(`emptyRange_reported_iff`).
-/
namespace ProxyRouting.RuleList
variable {cs : RuleList} {index : Nat} {p : Problem}

/-- What is reported is the defect of a condition, at the place of the condition and with its text. -/
theorem mem_problemsFrom : p ∈ problemsFrom index cs ↔
    ∃ i c, cs[i]? = some c ∧ c.defect? = some p.defect ∧ p.index = index + i ∧ p.condition = c.toText := by
  induction cs generalizing index with
  | nil => simp [problemsFrom]
  | cons c cs ih =>
    have first : p ∈ (c.defect?.map fun d => (⟨index, c.toText, d⟩ : Problem)).toList ↔
        c.defect? = some p.defect ∧ p.index = index ∧ p.condition = c.toText := by
      rw [Option.mem_toList, Option.map_eq_some_iff]
      constructor
      · rintro ⟨d, shown, rfl⟩
        exact ⟨shown, rfl, rfl⟩
      · rintro ⟨shown, rfl, same⟩
        exact ⟨p.defect, shown, by rw [← same]⟩
    rw [problemsFrom, List.mem_append, first, ih]
    constructor
    · rintro (⟨shown, place, same⟩ | ⟨i, d, here, shown, place, same⟩)
      · exact ⟨0, c, rfl, shown, place, same⟩
      · exact ⟨i + 1, d, here, shown, by omega, same⟩
    · rintro ⟨i, d, here, shown, place, same⟩
      cases i with
      | zero =>
        cases here
        exact .inl ⟨shown, place, same⟩
      | succ i => exact .inr ⟨i, d, here, shown, by omega, same⟩

theorem mem_problems : p ∈ problems cs ↔
    ∃ c, cs[p.index]? = some c ∧ c.defect? = some p.defect ∧ p.condition = c.toText := by
  rw [problems, mem_problemsFrom]
  constructor
  · rintro ⟨i, c, here, shown, place, same⟩
    rw [Nat.zero_add] at place
    exact ⟨c, by rwa [place], shown, same⟩
  · rintro ⟨c, here, shown, same⟩
    exact ⟨p.index, c, here, shown, (Nat.zero_add _).symm, same⟩

/-- Problems are reported in the order of their places. -/
theorem ascending_problemsFrom (index : Nat) (cs : RuleList) :
    (problemsFrom index cs).Pairwise fun p q => p.index < q.index := by
  induction cs generalizing index with
  | nil => exact List.Pairwise.nil
  | cons c cs ih =>
    refine List.pairwise_append.2 ⟨?_, ih (index + 1), ?_⟩
    · cases c.defect? with
      | none => exact List.Pairwise.nil
      | some d => exact List.pairwise_singleton _ _
    · intro p first q later
      rw [Option.mem_toList, Option.map_eq_some_iff] at first
      obtain ⟨d, _, rfl⟩ := first
      obtain ⟨i, _, _, _, place, _⟩ := mem_problemsFrom.1 later
      show index < q.index
      omega

/-- A problem is one of the condition at its place, and with its text. If it is an error, the condition is refused with
    that very error whatever is asked of it; otherwise the condition matches no request at any time. The places of
    problems ascend, and every condition whose analysis fails is among them. -/
theorem problems_sound (cs : RuleList) :
    (∀ p ∈ problems cs, ∃ c, cs[p.index]? = some c ∧ p.condition = c.toText ∧
      ((∃ e, p.defect = .invalid e ∧ c.Refuses e) ∨
        ((p.defect = .brokenPattern ∨ p.defect = .emptyRange) ∧ c.NeverMatches))) ∧
      (problems cs).Pairwise (fun p q => p.index < q.index) ∧
      ∀ i c e, cs[i]? = some c → c.analyze = .error e → ⟨i, c.toText, .invalid e⟩ ∈ problems cs := by
  refine ⟨?_, ascending_problemsFrom 0 cs, ?_⟩
  · intro p member
    obtain ⟨c, here, shown, same⟩ := mem_problems.1 member
    exact ⟨c, here, same, cannotMatch_of_defect shown⟩
  · intro i c e here failed
    have shown : c.defect? = some (.invalid e) := by rw [Condition.defect?, failed]
    exact mem_problems.2 ⟨c, here, shown, rfl⟩

/-- A list with a pattern that is not closed, an hour range the wrong way round, and an address that is none. -/
theorem problems_sound_three : ∃ cs p, cs = [.always, .hostRegex "(a".toList, .time 18 9, .ip "bogus".toList 8] ∧
    p ∈ problems cs ∧ p.index = 1 ∧ p.condition = (Condition.hostRegex "(a".toList).toText ∧
      p.defect = .brokenPattern ∧ (Condition.hostRegex "(a".toList).NeverMatches ∧
      cs[3]? = some (.ip "bogus".toList 8) ∧
      (Condition.ip "bogus".toList 8).analyze = .error (.invalidIp "bogus/8".toList) ∧
      (problems cs).Pairwise (fun p q => p.index < q.index) ∧
      ⟨3, (Condition.ip "bogus".toList 8).toText, .invalid (.invalidIp "bogus/8".toList)⟩ ∈ problems cs := by
  let cs : RuleList := [.always, .hostRegex "(a".toList, .time 18 9, .ip "bogus".toList 8]
  have found : (⟨1, (Condition.hostRegex "(a".toList).toText, .brokenPattern⟩ : Problem) ∈ problems cs := by
    refine mem_problems.2 ⟨_, rfl, ?_, rfl⟩
    decide +kernel
  have failed : (Condition.ip "bogus".toList 8).analyze = .error (.invalidIp "bogus/8".toList) := rfl
  obtain ⟨each, ascending, complete⟩ := problems_sound cs
  obtain ⟨c, here, -, cause⟩ := each _ found
  cases here
  have never : (Condition.hostRegex "(a".toList).NeverMatches := by
    rcases cause with ⟨e, other, -⟩ | ⟨-, never⟩
    · cases other
    · exact never
  exact ⟨cs, _, rfl, found, rfl, rfl, rfl, never, rfl, failed, ascending, complete 3 _ _ rfl failed⟩

/-- A condition about the number of dots, the day or the hour is reported as empty just if it matches nothing, except
    for hours in order that all come after the last one of a day: those match nothing either, and are not reported. A
    condition that matches anything matches the request of some URL at a time of the calendar. -/
theorem emptyRange_reported_iff {i : Nat} {c : Condition} (here : cs[i]? = some c) (ranged : c.IsRange) :
    ((∃ p ∈ problems cs, p.index = i ∧ p.defect = .emptyRange) ↔ c.NeverMatches ∧ ¬ c.BeginsLate) ∧
      (c.BeginsLate → c.NeverMatches) ∧ (¬ c.NeverMatches → c.Matchable) := by
  refine ⟨?_, Condition.neverMatches_of_beginsLate, ?_⟩
  · rw [← Condition.emptyRange_iff ranged]
    constructor
    · rintro ⟨p, member, rfl, empty⟩
      obtain ⟨d, there, shown, _⟩ := mem_problems.1 member
      rw [here] at there
      cases there
      rw [shown, empty]
    · intro shown
      exact ⟨⟨i, c.toText, .emptyRange⟩, mem_problems.2 ⟨c, here, shown, rfl⟩, rfl, rfl⟩
  · intro matched
    have sound : c.defect? ≠ some .emptyRange := fun shown => matched ((Condition.emptyRange_iff ranged).1 shown).1
    exact (Condition.matchable_or_late ranged sound).resolve_right
      fun late => matched (Condition.neverMatches_of_beginsLate late)

/-- Days from beyond Saturday are none, and are reported; the hours from noon on are some, and are not. -/
theorem emptyRange_reported_iff_days :
    let cs : RuleList := [.always, .weekday none 7 9, .time 12 30]
    (cs[1]? = some (.weekday none 7 9) ∧ (Condition.weekday none 7 9).IsRange ∧
      ∃ p ∈ problems cs, p.index = 1 ∧ p.defect = .emptyRange) ∧
    cs[2]? = some (.time 12 30) ∧ (Condition.time 12 30).IsRange ∧
      (¬ ∃ p ∈ problems cs, p.index = 2 ∧ p.defect = .emptyRange) ∧ (Condition.time 12 30).Matchable := by
  intro cs
  have days : cs[1]? = some (.weekday none 7 9) := rfl
  have hours : cs[2]? = some (.time 12 30) := rfl
  have never : (Condition.weekday none 7 9).NeverMatches := (Condition.neverMatches_iff rfl).2 fun r now =>
    isMatch_of_isEmpty (a := .weekday (.of none 7 9)) (by decide) r now
  have matched : ¬ (Condition.time 12 30).NeverMatches := fun never =>
    Condition.not_matchable_of_neverMatches never (Condition.matchable_time (by decide) (by decide))
  have reported := emptyRange_reported_iff days trivial
  have passed := emptyRange_reported_iff hours trivial
  exact ⟨⟨days, trivial, reported.1.2 ⟨never, fun late => late⟩⟩, hours, trivial,
    fun shown => matched (passed.1.1 shown).1, passed.2.2 matched⟩

/-- Not every range that matches nothing is reported: no clock shows the hours from 24 to 30. -/
theorem emptyRange_unreported :
    ¬ ∀ (cs : RuleList) (i : Nat) (c : Condition), cs[i]? = some c → c.IsRange →
      ((∃ p ∈ problems cs, p.index = i ∧ p.defect = .emptyRange) ↔ c.NeverMatches) := by
  intro complete
  have never : (Condition.time 24 30).NeverMatches := Condition.neverMatches_of_beginsLate ⟨by decide, by decide⟩
  obtain ⟨p, member, _⟩ := (complete [.time 24 30] 0 _ rfl trivial).2 never
  cases member

end ProxyRouting.RuleList
