import Mathlib.Algebra.Order.BigOperators.Group.List
import Mathlib.Algebra.Order.Ring.Nat
import ProxyRouting.Proofs.Condition.Compile
import ProxyRouting.RuleList.Diagnosis

/-!
Defects of conditions. A condition whose analysis shows a defect matches nothing, and one that has no analysis gives
its error whatever it is asked (`cannotMatch_of_defect`). Of the conditions about numbers, those that show no defect
match some request at a time of the calendar, but for hours that no clock shows (`matchable_or_late`).
-/
namespace ProxyRouting
open Text

namespace Condition

/-- The condition matches no request at any time. -/
def NeverMatches (c : Condition) : Prop := ∀ (r : Request) (now : LocalTime), c.isMatch r now = .ok false

/-- The condition answers with the error whatever it is asked. -/
structure Refuses (c : Condition) (e : ConditionError) : Prop where
  isMatch : ∀ (r : Request) (now : LocalTime), c.isMatch r now = .error e
  toExpr : c.toExpr = .error e

theorem refuses_of_analyze {c : Condition} {e : ConditionError} (failed : c.analyze = .error e) : c.Refuses e := by
  constructor
  · intro r now
    rw [Condition.isMatch, failed]
    rfl
  · rw [Condition.toExpr, failed]
    rfl

theorem neverMatches_iff {c : Condition} {a : Analysis} (analyzed : c.analyze = .ok a) :
    c.NeverMatches ↔ ∀ r now, a.isMatch r now = false := by
  simp only [NeverMatches, isMatch, analyzed, Except.map, Except.ok.injEq]

end Condition

theorem Regex.Search.finds_of_isNever {search : Search} (never : search.isNever = true) (t : Text) :
    search.finds t = false := by
  cases search with
  | compiled source pattern compiles => cases never
  | never => rfl

/-- An entry that is searched for in the URL asks nothing of the host. -/
theorem Bypass.host_of_url {entry : Text} {search : Regex.Search} (searched : (Bypass.ofText entry).url = some search) :
    (Bypass.ofText entry).host = .any := by
  unfold Bypass.ofText at searched ⊢
  split at searched
  · cases searched
  · next remote =>
    rw [if_neg remote]
    simp only at searched ⊢
    split at searched
    · cases searched
    · split at searched
      · rfl
      · cases searched

/-- An entry matches nothing if one of its searches finds nothing. -/
theorem Bypass.isMatch_of_isBroken {entry : Text} (broken : (Analysis.bypass (Bypass.ofText entry)).isBroken = true)
    (r : Request) : (Bypass.ofText entry).isMatch r = false := by
  simp only [Analysis.isBroken, Bool.or_eq_true, Option.any_eq_true] at broken
  rcases broken with inHost | ⟨search, inUrl, never⟩
  · split at inHost
    · next search host =>
      have nothing := search.finds_of_isNever inHost r.host
      simp [Bypass.isMatch, host, nothing]
    · cases inHost
  · have nothing := search.finds_of_isNever never r.url
    simp [Bypass.isMatch, Bypass.host_of_url inUrl, inUrl, nothing]

/-- A broken analysis matches nothing. -/
theorem isMatch_of_isBroken {c : Condition} {a : Analysis} (analyzed : c.analyze = .ok a) (broken : a.isBroken = true)
    (r : Request) (now : LocalTime) : a.isMatch r now = false := by
  cases a with
  | url search => exact search.finds_of_isNever broken r.url
  | host search => exact search.finds_of_isNever broken r.host
  | bypass entry =>
    obtain ⟨pattern, rfl⟩ := pattern_of_analyze analyzed
    exact Bypass.isMatch_of_isBroken broken r
  | _ => cases broken

theorem Weekdays.bits_eq_zero_iff (w : Weekdays) : w.bits = 0 ↔ ∀ day, w.isOn day = false := by
  rw [Weekdays.bits, List.sum_eq_zero_iff]
  simp

theorem Weekdays.contains_val (w : Weekdays) (day : Fin 7) : w.contains day = w.isOn day := by
  simp [contains]

/-- An empty range holds nothing. -/
theorem isMatch_of_isEmpty {a : Analysis} (empty : a.isEmpty = true) (r : Request) (now : LocalTime) :
    a.isMatch r now = false := by
  cases a with
  | hostLevels min max =>
    have inverted : max.toNat < min.toNat := of_decide_eq_true empty
    simp only [Analysis.isMatch, levelsMatch, Bool.and_eq_false_iff, decide_eq_false_iff_not]
    omega
  | weekday rule =>
    have none : rule.days.bits = 0 := of_decide_eq_true empty
    rw [Analysis.isMatch, Weekdays.contains_val]
    exact (Weekdays.bits_eq_zero_iff rule.days).1 none now.weekday
  | time first last =>
    have inverted : last.toNat < first.toNat := of_decide_eq_true empty
    simp only [Analysis.isMatch, hourMatch, Bool.and_eq_false_iff, decide_eq_false_iff_not]
    omega
  | _ => cases empty

/-- A defect that shows in an analysis is a broken pattern or an empty range. -/
theorem defect?_cases {a : Analysis} {d : Defect} (shown : a.defect? = some d) :
    (d = .brokenPattern ∧ a.isBroken = true) ∨ (d = .emptyRange ∧ a.isEmpty = true) := by
  unfold Analysis.defect? at shown
  split at shown
  · next broken =>
    cases shown
    exact .inl ⟨rfl, broken⟩
  · split at shown
    · next empty =>
      cases shown
      exact .inr ⟨rfl, empty⟩
    · cases shown

/-- An analysis without broken patterns shows whether its range is empty. -/
theorem emptyRange_iff_isEmpty {c : Condition} {a : Analysis} (analyzed : c.analyze = .ok a)
    (whole : a.isBroken = false) : c.defect? = some .emptyRange ↔ a.isEmpty = true := by
  simp [Condition.defect?, analyzed, Analysis.defect?, whole]

/-- A condition with a defect is refused with the error that is its defect, or matches nothing. -/
theorem cannotMatch_of_defect {c : Condition} {d : Defect} (shown : c.defect? = some d) :
    (∃ e, d = .invalid e ∧ c.Refuses e) ∨ ((d = .brokenPattern ∨ d = .emptyRange) ∧ c.NeverMatches) := by
  unfold Condition.defect? at shown
  cases analyzed : c.analyze with
  | error e =>
    rw [analyzed] at shown
    cases shown
    exact .inl ⟨e, rfl, Condition.refuses_of_analyze analyzed⟩
  | ok a =>
    rw [analyzed] at shown
    rw [Condition.neverMatches_iff analyzed]
    rcases defect?_cases shown with ⟨rfl, broken⟩ | ⟨rfl, empty⟩
    · exact .inr ⟨.inl rfl, isMatch_of_isBroken analyzed broken⟩
    · exact .inr ⟨.inr rfl, isMatch_of_isEmpty empty⟩

namespace LocalTime

/-- The calendar has the day. -/
structure OnCalendar (t : LocalTime) : Prop where
  month : 1 ≤ t.month ∧ t.month ≤ 12
  day : 1 ≤ t.day ∧ t.day ≤ daysInMonth t.year t.month

/-- A day of the week in January 2024, whose seventh day is a Sunday, at some hour. -/
def inJanuary (day : Fin 7) (hour : Fin 24) : LocalTime := { ofNumbers 2024 1 (7 + day) 0 0 with hour }

theorem onCalendar_inJanuary (day : Fin 7) (hour : Fin 24) : (inJanuary day hour).OnCalendar := by
  have days : daysInMonth 2024 1 = 31 := rfl
  constructor
  · exact ⟨Nat.le_refl 1, Nat.le_of_ble_eq_true rfl⟩
  · show 1 ≤ 7 + day.val ∧ 7 + day.val ≤ daysInMonth 2024 1
    omega

theorem weekday_inJanuary (day : Fin 7) (hour : Fin 24) : (inJanuary day hour).weekday = day := by
  have all : ∀ day, (inJanuary day 0).weekday = day := by decide
  exact all day

end LocalTime

/-- Some URL makes a request whose host has so many dots. -/
theorem exists_dots (dots : Nat) : ∃ url r, Request.ofUrl? url = some r ∧ r.host.count '.' = dots := by
  let host : Text := 'a' :: List.replicate dots '.'
  have plain : ∀ c ∈ host, c ∉ ':' :: '[' :: Url.separators ∧ isBlank c = false := by
    intro c member
    rcases List.mem_cons.1 member with rfl | inside
    · decide
    · rw [List.eq_of_mem_replicate inside]
      decide
  obtain ⟨url, r, made, named⟩ := exists_host (List.cons_ne_nil _ _) plain
  have small : lower host = host := by
    rw [lower, List.map_cons, List.map_replicate]
    rfl
  refine ⟨url, r, made, ?_⟩
  rw [named, small, List.count_cons_of_ne (by decide), List.count_replicate_self]

namespace Condition

/-- The condition is about the number of dots, the day or the hour. -/
def IsRange : Condition → Prop
  | .hostLevels _ _ => True
  | .weekday _ _ _ => True
  | .time _ _ => True
  | _ => False

/-- Some URL makes a request that the condition matches at a time of the calendar. -/
def Matchable (c : Condition) : Prop :=
  ∃ url r now, Request.ofUrl? url = some r ∧ now.OnCalendar ∧ c.isMatch r now = .ok true

/-- The condition is about hours in order that are all later than the last of a day. -/
def BeginsLate : Condition → Prop
  | .time first last => 24 ≤ first.toNat ∧ first.toNat ≤ last.toNat
  | _ => False

theorem not_matchable_of_neverMatches {c : Condition} (never : c.NeverMatches) : ¬ c.Matchable := by
  rintro ⟨url, r, now, _, _, matched⟩
  rw [never r now] at matched
  cases matched

theorem matchable_hostLevels {min max : UInt32} (order : min.toNat ≤ max.toNat) : (hostLevels min max).Matchable := by
  obtain ⟨url, r, made, count⟩ := exists_dots min.toNat
  refine ⟨url, r, .inJanuary 0 0, made, LocalTime.onCalendar_inJanuary 0 0, ?_⟩
  have within : levelsMatch r.host min max = true := by simp [levelsMatch, count, order]
  exact congrArg Except.ok within

theorem matchable_weekday {mask : Option Text} {first last : UInt8}
    (some : (WeekdayRule.of mask first last).days.bits ≠ 0) : (weekday mask first last).Matchable := by
  rw [Ne, Weekdays.bits_eq_zero_iff, not_forall] at some
  obtain ⟨day, on⟩ := some
  obtain ⟨url, r, made, _⟩ := exists_dots 0
  refine ⟨url, r, .inJanuary day 0, made, LocalTime.onCalendar_inJanuary day 0, ?_⟩
  have chosen : (WeekdayRule.of mask first last).days.contains (LocalTime.inJanuary day 0).weekday = true := by
    rw [LocalTime.weekday_inJanuary, Weekdays.contains_val]
    exact Bool.not_eq_false _ ▸ on
  exact congrArg Except.ok chosen

theorem matchable_time {first last : UInt8} (order : first.toNat ≤ last.toNat) (early : first.toNat < 24) :
    (time first last).Matchable := by
  obtain ⟨url, r, made, _⟩ := exists_dots 0
  refine ⟨url, r, .inJanuary 0 ⟨first.toNat, early⟩, made, LocalTime.onCalendar_inJanuary _ _, ?_⟩
  have within : hourMatch first.toNat first last = true := by simp [hourMatch, order]
  exact congrArg Except.ok within

theorem neverMatches_of_beginsLate {c : Condition} (late : c.BeginsLate) : c.NeverMatches := by
  cases c with
  | time first last =>
    intro r now
    have hour := now.hour.isLt
    have begins : 24 ≤ first.toNat := late.1
    have missed : hourMatch now.hour first last = false := by
      simp only [hourMatch, Bool.and_eq_false_iff, decide_eq_false_iff_not]
      omega
    exact congrArg Except.ok missed
  | _ => cases late

/-- A range in which no defect shows holds something, unless it is one of hours that no clock shows. -/
theorem matchable_or_late {c : Condition} (ranged : c.IsRange) (sound : c.defect? ≠ some .emptyRange) :
    c.Matchable ∨ c.BeginsLate := by
  cases c with
  | hostLevels min max =>
    refine .inl (matchable_hostLevels (Nat.le_of_not_lt fun inverted => sound ?_))
    have empty : (Analysis.hostLevels min max).isEmpty = true := decide_eq_true inverted
    exact (emptyRange_iff_isEmpty rfl rfl).2 empty
  | weekday mask first last =>
    refine .inl (matchable_weekday fun none => sound ?_)
    have empty : (Analysis.weekday (WeekdayRule.of mask first last)).isEmpty = true := decide_eq_true none
    exact (emptyRange_iff_isEmpty rfl rfl).2 empty
  | time first last =>
    have order : first.toNat ≤ last.toNat := by
      refine Nat.le_of_not_lt fun inverted => sound ?_
      have empty : (Analysis.time first last).isEmpty = true := decide_eq_true inverted
      exact (emptyRange_iff_isEmpty rfl rfl).2 empty
    by_cases early : first.toNat < 24
    · exact .inl (matchable_time order early)
    · exact .inr ⟨Nat.le_of_not_lt early, order⟩
  | _ => cases ranged

theorem not_emptyRange_of_beginsLate {c : Condition} (late : c.BeginsLate) : c.defect? ≠ some .emptyRange := by
  cases c with
  | time first last =>
    intro shown
    have empty : (Analysis.time first last).isEmpty = true := (emptyRange_iff_isEmpty rfl rfl).1 shown
    exact Nat.not_lt.2 late.2 (of_decide_eq_true empty)
  | _ => cases late

/-- An empty range shows just in the ranges that match nothing, but not in one of hours that no clock shows. -/
theorem emptyRange_iff {c : Condition} (ranged : c.IsRange) :
    c.defect? = some .emptyRange ↔ c.NeverMatches ∧ ¬ c.BeginsLate := by
  constructor
  · intro shown
    refine ⟨?_, fun late => not_emptyRange_of_beginsLate late shown⟩
    rcases cannotMatch_of_defect shown with ⟨e, same, _⟩ | ⟨_, never⟩
    · cases same
    · exact never
  · rintro ⟨never, early⟩
    by_contra sound
    rcases matchable_or_late ranged sound with some | late
    · exact not_matchable_of_neverMatches never some
    · exact early late

end Condition
end ProxyRouting
