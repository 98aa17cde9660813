import ProxyRouting.Condition.Range
import ProxyRouting.Proofs.Expr.Strings

/-!
Conditions about numbers, as expressions: the dots of the host are one less than its labels, a mask is read at
the day, and hours and days are compared as they are.
-/
namespace ProxyRouting
open ProxyRouting.Expr

section
variable {inner : Env → Expr → Except EvalError Value} {env : Env} {r : Request} {now : LocalTime}

/-- The expression about the labels holds when the number of dots is within. -/
theorem truth_levelsExpr (serves : env.Serves r now) (few : r.host.count '.' < 2 ^ 32) (min max : UInt32) :
    Truth (evalWith inner) env (levelsExpr min max) (levelsMatch r.host min max) := by
  have labels : Counts (evalWith inner) env (.member ((name "host").method "split" [.string ['.']]) "length".toList)
      (r.host.count '.' + 1) := counts_split (evalWith_name serves.host) '.' (by unfold Binary64.exactBound; omega)
  have bound (n : UInt32) : IsExact (n.toNat + 1) := by
    have := n.toNat_lt
    unfold IsExact Binary64.exactBound
    omega
  have within : levelsMatch r.host min max =
      decide ((min.toNat : Int) + 1 ≤ (r.host.count '.' : Int) + 1 ∧ (r.host.count '.' : Int) + 1 ≤ (max.toNat : Int) + 1) := by
    unfold levelsMatch
    rw [← Bool.decide_and, decide_eq_decide]
    omega
  rw [within]
  exact truth_between labels (bound min) (bound max) _

theorem evalWith_nowMethod {call : Env → Expr → Except EvalError Value} (serves : env.Serves r now) {method : String}
    {m : Method} (known : (Value.date now).method? method.toList = some m) :
    evalWith call env (nowMethod method) = .ok (Value.callMethod (.date now) m .undefined) := by
  have date : evalWith call env (.construct (name "Date") []) = .ok (.date now) := by
    rw [evalWith, evalWith_name serves.date]
    simp [bind, Except.bind, Value.construct, serves.time]
  exact evalWith_method date known (by rw [evalArgs])

theorem counts_weekday {call : Env → Expr → Except EvalError Value} (serves : env.Serves r now) :
    Counts call env (nowMethod "getDay") now.weekday.val :=
  ⟨_, evalWith_nowMethod (m := .getDay) serves rfl, Binary64.stands_ofNat (by unfold Binary64.exactBound; omega)⟩

theorem counts_hour {call : Env → Expr → Except EvalError Value} (serves : env.Serves r now) :
    Counts call env (nowMethod "getHours") now.hour.val :=
  ⟨_, evalWith_nowMethod (m := .getHours) serves rfl, Binary64.stands_ofNat (by unfold Binary64.exactBound; omega)⟩

theorem small_byte (n : UInt8) : IsExact n.toNat := by
  have := n.toNat_lt
  unfold IsExact Binary64.exactBound
  omega

theorem charUnits_le {c : Char} {unit : Nat} (member : unit ∈ charUnits c) : unit ≤ 2 ^ 53 := by
  have scalar : c.toNat < 2 ^ 32 := c.val.toNat_lt
  unfold charUnits at member
  simp only at member
  split at member
  · rw [List.mem_singleton] at member
    omega
  · simp only [List.mem_cons, List.not_mem_nil, or_false] at member
    omega

theorem units_le {t : Text} {unit : Nat} (member : unit ∈ Text.units t) : unit ≤ Binary64.exactBound := by
  obtain ⟨c, _, here⟩ := List.mem_flatMap.1 member
  exact charUnits_le here

theorem charCode_stands {x : Binary64} {i : Nat} (stands : x.Stands i) (t : Text) :
    Value.charCode t (.number x) = .number (((Text.units t)[i]?).elim .nan Binary64.ofNat) := by
  have index : x.truncate? = some i := (Binary64.truncate?_stands stands i).2 rfl
  show Value.number ((x.truncate?.bind fun i => (Text.units t)[i]?).elim .nan Binary64.ofNat) = _
  rw [index, Option.bind_some]

/-- The code of a unit of a string is compared with a small number; there is none behind the end. -/
theorem truth_charCode_gt {call : Env → Expr → Except EvalError Value} {index : Expr} {i : Nat}
    (counts : Counts call env index i) (t : Text) {bound : Nat} (small : IsExact bound) :
    Truth call env (.binary .gt ((Expr.string t).method "charCodeAt" [index]) (.number bound))
      ((Text.units t)[i]?.any (bound < ·)) := by
  obtain ⟨x, value, stands⟩ := counts
  obtain ⟨y, limit, stands'⟩ : Counts call env (.number bound) bound := counts_number small
  have code : evalWith call env ((Expr.string t).method "charCodeAt" [index]) = .ok (Value.charCode t (.number x)) :=
    evalWith_method (m := .charCodeAt) (evalWith_string t) rfl (evalArgs_one value)
  rw [charCode_stands stands t] at code
  refine ⟨_, evalWith_binary .gt code limit, ?_⟩
  cases unit : (Text.units t)[i]? with
  | none => rfl
  | some u =>
    have known := Binary64.stands_ofNat (units_le (List.mem_of_getElem? unit))
    rw [Option.elim_some, applyOp_compares (by decide) known stands', Value.truthy, Option.any_some, compares,
      decide_eq_decide]
    omega

/-- The expression about the current day holds when the day is chosen. -/
theorem truth_weekdayExpr (serves : env.Serves r now) (rule : WeekdayRule) :
    Truth (evalWith inner) env rule.toExpr (rule.days.contains now.weekday) := by
  have day := now.weekday.isLt
  unfold WeekdayRule.toExpr WeekdayRule.days
  cases rule.mask with
  | some mask =>
    have chosen : (Weekdays.ofMask mask).contains now.weekday = (Text.units mask)[now.weekday.val]?.any (64 < ·) := by
      simp only [Weekdays.contains, Weekdays.ofMask, day, ↓reduceDIte]
      rfl
    simp only
    rw [chosen]
    exact truth_charCode_gt (counts_weekday serves) mask (by decide)
  | none =>
    have within : (Weekdays.ofRange rule.first.toNat rule.last.toNat).contains now.weekday =
        decide ((rule.first.toNat : Int) ≤ now.weekday.val ∧ (now.weekday.val : Int) ≤ rule.last.toNat) := by
      simp [Weekdays.contains, Weekdays.ofRange, day]
    simp only
    rw [within]
    exact truth_between (counts_weekday serves) (small_byte rule.first) (small_byte rule.last) none

/-- The expression about the current hour holds when the hour is within. -/
theorem truth_hourExpr (serves : env.Serves r now) (first last : UInt8) :
    Truth (evalWith inner) env (hourExpr first last) (hourMatch now.hour first last) := by
  have within : hourMatch now.hour first last =
      decide ((first.toNat : Int) ≤ now.hour.val ∧ (now.hour.val : Int) ≤ last.toNat) := by
    simp [hourMatch]
  rw [within]
  exact truth_between (counts_hour serves) (small_byte first) (small_byte last) none

end
end ProxyRouting
