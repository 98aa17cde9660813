import ProxyRouting.Expr.Range
import ProxyRouting.Proofs.Expr.Evaluation
import ProxyRouting.Proofs.Text.Digits

/-!
Range checks mean what they should. Whichever form `between` picks for its bounds, an equality, a constant, a
probe into a string or a call of a function, it holds of an integer just when the integer lies between them
(`truth_between`), as do the two comparisons it stands for (`truth_plainRange`); so both have the same answer wherever
the value is an integer, and a probe is a part of the table (`evalBool_between`).
-/
namespace ProxyRouting.Expr

section
variable {call : Env → Expr → Except EvalError Value} {env : Env}

/-- The expression has a double for its value that is the given integer. -/
def Counts (call : Env → Expr → Except EvalError Value) (env : Env) (e : Expr) (n : Int) : Prop :=
  ∃ x, evalWith call env e = .ok (.number x) ∧ x.Stands n

/-- The integer and its neighbours are doubles. -/
def IsExact (n : Int) : Prop := n.natAbs ≤ Binary64.exactBound

instance (n : Int) : Decidable (IsExact n) := inferInstanceAs (Decidable (n.natAbs ≤ Binary64.exactBound))

theorem counts_number {n : Int} (small : IsExact n) : Counts call env (.number n) n :=
  ⟨Binary64.ofInt n, by rw [evalWith], Binary64.stands_ofInt small⟩

/-- What an operator that compares says of two integers. -/
def compares (op : BinaryOp) (m n : Int) : Bool :=
  match op with
  | .lt => m < n
  | .le => m ≤ n
  | .gt => n < m
  | .ge => n ≤ m
  | _ => m = n

theorem applyOp_compares {op : BinaryOp} (comparison : op ∉ [.sub, .and, .or]) {x y : Binary64} {m n : Int}
    (first : x.Stands m) (second : y.Stands n) :
    (Value.number x).applyOp op (.number y) = .bool (compares op m n) := by
  have order := Binary64.compare?_stands first second
  have cases := Int.compare_eq_ite_lt m n
  cases op with
  | strictEq =>
    simp only [Value.applyOp, Value.strictEquals, Binary64.equals, order, compares, cases, Value.bool.injEq]
    split_ifs <;> simp <;> omega
  | sub | and | or => simp at comparison
  | _ =>
    simp only [Value.applyOp, Value.compare?, Value.toNumber, order, compares, cases, Value.bool.injEq, Option.any_some]
    split_ifs <;> simp [Ordering.isLT, Ordering.isLE, Ordering.isGT, Ordering.isGE] <;> omega

/-- Expressions compare like the integers they count. -/
theorem truth_compares (op : BinaryOp) (comparison : op ∉ [.sub, .and, .or]) {left right : Expr} {m n : Int}
    (first : Counts call env left m) (second : Counts call env right n) :
    Truth call env (.binary op left right) (compares op m n) := by
  obtain ⟨x, value, stands⟩ := first
  obtain ⟨y, value', stands'⟩ := second
  exact ⟨_, (evalWith_binary op value value').trans (congrArg _ (applyOp_compares comparison stands stands')), rfl⟩

/-- The two comparisons hold of an integer between the bounds. -/
theorem truth_plainRange {value : Expr} {n min max : Int} (counts : Counts call env value n) (low : IsExact min)
    (high : IsExact max) : Truth call env (plainRange value min max) (min ≤ n ∧ n ≤ max) := by
  rw [Bool.decide_and]
  exact truth_and (truth_compares .le (by decide) (counts_number low) counts)
    (truth_compares .le (by decide) counts (counts_number high))

/-- The probed string has a character for each number of the range. -/
theorem length_probeText {min max : Int} (narrow : max - min < probeSpan) :
    (probeText min max).length = (max - min + 1).toNat := by
  have table : rangeTable.length = 36 := rfl
  unfold probeSpan at narrow
  unfold probeText
  simp only
  split
  · rw [List.length_take, List.length_drop]
    omega
  · rw [List.length_take]
    omega

theorem mem_probeText {min max : Int} {c : Char} (member : c ∈ probeText min max) : c ∈ rangeTable := by
  unfold probeText at member
  simp only at member
  split at member
  · exact List.mem_of_mem_drop (List.mem_of_mem_take member)
  · exact List.mem_of_mem_take member

theorem units_of_table {t : Text} (known : ∀ c ∈ t, c ∈ rangeTable) : Text.units t = t.map Char.toNat := by
  induction t with
  | nil => rfl
  | cons c t ih =>
    have single : ∀ c ∈ rangeTable, charUnits c = [c.toNat] := Text.forall_mem_of_all (by decide)
    have others := ih fun d member => known d (List.mem_cons_of_mem c member)
    simp only [Text.units, List.flatMap_cons, single c (known c (by simp))] at others ⊢
    simp [others]

/-- The value counted from the lower bound is the index it should be. -/
theorem fromBound_index {value : Expr} {n min : Int} (counts : Counts call env value n) (low : IsExact min) :
    ∃ x, evalWith call env (fromBound value min) = .ok (.number x) ∧
      ∀ i < Binary64.exactBound, x.truncate? = some i ↔ n - min = i := by
  obtain ⟨x, answer, stands⟩ := counts
  unfold fromBound
  split
  · next zero =>
    subst zero
    refine ⟨x, answer, fun i _ => ?_⟩
    rw [Binary64.truncate?_stands stands, Int.sub_zero]
  · obtain ⟨y, bound, stands'⟩ : Counts call env (.number min) min := counts_number low
    exact ⟨_, evalWith_binary .sub answer bound, fun i small => Binary64.truncate?_sub stands stands' small⟩

/-- Reading the code of a probed string at the value tells whether the value is within. -/
theorem truth_probe {value : Expr} {n min max : Int} (counts : Counts call env value n) (low : IsExact min)
    (narrow : max - min < probeSpan) : Truth call env (probe value min max) (min ≤ n ∧ n ≤ max) := by
  obtain ⟨x, answer, index⟩ := fromBound_index counts low
  have units : Text.units (probeText min max) = (probeText min max).map Char.toNat :=
    units_of_table fun c member => mem_probeText member
  have length := length_probeText narrow
  have receiver : evalWith call env (.string (probeText min max)) = .ok (.string (probeText min max)) := by
    rw [evalWith]
  have code : evalWith call env ((Expr.string (probeText min max)).method "charCodeAt" [fromBound value min]) =
      .ok (Value.charCode (probeText min max) (.number x)) :=
    evalWith_method (m := .charCodeAt) receiver rfl (evalArgs_one answer)
  obtain ⟨zero, bound, stands⟩ : Counts call env (.number 0) 0 := counts_number (Nat.zero_le _)
  refine ⟨_, evalWith_binary .gt code bound, ?_⟩
  simp only [Value.charCode, Value.toNumber, units]
  by_cases inside : min ≤ n ∧ n ≤ max
  · have count : (n - min).toNat < (probeText min max).length := by omega
    have found : x.truncate? = some (n - min).toNat := by
      rw [index _ (by unfold Binary64.exactBound; unfold probeSpan at narrow; omega)]
      omega
    have small : ∀ c ∈ rangeTable, 0 < c.toNat ∧ c.toNat ≤ Binary64.exactBound := Text.forall_mem_of_all (by decide)
    obtain ⟨positive, exact⟩ := small _ (mem_probeText (List.getElem_mem count))
    have code : ((probeText min max).map Char.toNat)[(n - min).toNat]? =
        some (probeText min max)[(n - min).toNat].toNat := by
      rw [List.getElem?_map, List.getElem?_eq_getElem count, Option.map_some]
    simp only [found, Option.bind_some, code, Option.elim]
    rw [applyOp_compares (by decide) (Binary64.stands_ofNat exact) stands]
    simp [compares, inside, positive, Value.truthy]
  · have missed : (x.truncate?.bind fun i => ((probeText min max).map Char.toNat)[i]?) = none := by
      rw [Option.bind_eq_none_iff]
      intro i found
      rw [List.getElem?_eq_none_iff, List.length_map]
      refine Nat.le_of_not_lt fun count => inside ?_
      rw [index i (by unfold Binary64.exactBound; unfold probeSpan at narrow; omega)] at found
      omega
    rw [missed, decide_eq_false inside]
    rfl

end

/-- What the checking function is called with is bound to its parameters while its body is evaluated. -/
theorem truth_rangeBody {inner : Env → Expr → Except EvalError Value} {env : Env} {value : Expr} {x : Binary64}
    {min max : Int} {b : Bool} (answer : evalWith (evalWith inner) env value = .ok (.number x))
    (holds : ∀ inside : Env, inside.get? "value".toList = some (.number x) →
      inside.get? "min".toList = some (.number (Binary64.ofInt min)) →
      inside.get? "max".toList = some (.number (Binary64.ofInt max)) →
      Truth inner inside
        (.binary .and (.binary .le (name "min") (name "value")) (.binary .le (name "value") (name "max"))) b) :
    Truth (evalWith inner) env (rangeCall value min max) b := by
  have least : evalWith (evalWith inner) env (.number min) = .ok (.number (Binary64.ofInt min)) := by rw [evalWith]
  have most : evalWith (evalWith inner) env (.number max) = .ok (.number (Binary64.ofInt max)) := by rw [evalWith]
  generalize Binary64.ofInt min = y at least holds
  generalize Binary64.ofInt max = z at most holds
  have args : evalArgs (evalWith inner) env [value, .number min, .number max] = .ok [.number x, .number y, .number z] := by
    simp only [evalArgs, answer, least, most, bind, Except.bind]
  let body : Expr :=
    .binary .and (.binary .le (name "min") (name "value")) (.binary .le (name "value") (name "max"))
  let params : List Text := ["value".toList, "min".toList, "max".toList]
  have function : evalWith (evalWith inner) env (.function params body) = .ok (.function params body) := by rw [evalWith]
  obtain ⟨v, result, truthy⟩ := holds (env.bindParams params [.number x, .number y, .number z]) rfl rfl rfl
  exact ⟨v, evalWith_call function args result, truthy⟩

theorem truth_rangeCall {inner : Env → Expr → Except EvalError Value} {env : Env} {value : Expr} {n min max : Int}
    (counts : Counts (evalWith inner) env value n) (low : IsExact min) (high : IsExact max) :
    Truth (evalWith inner) env (rangeCall value min max) (min ≤ n ∧ n ≤ max) := by
  obtain ⟨x, answer, stands⟩ := counts
  refine truth_rangeBody answer fun inside bound least most => ?_
  have counted : Counts inner inside (name "value") n := ⟨x, evalWith_name bound, stands⟩
  have fromLeast : Counts inner inside (name "min") min := ⟨_, evalWith_name least, Binary64.stands_ofInt low⟩
  have toMost : Counts inner inside (name "max") max := ⟨_, evalWith_name most, Binary64.stands_ofInt high⟩
  rw [Bool.decide_and]
  exact truth_and (truth_compares .le (by decide) fromLeast counted) (truth_compares .le (by decide) counted toMost)

/-- The range check of an integer holds just when the integer lies between the bounds. -/
theorem truth_between {inner : Env → Expr → Except EvalError Value} {env : Env} {value : Expr} {n min max : Int}
    (counts : Counts (evalWith inner) env value n) (low : IsExact min) (high : IsExact max) (comment : Option Text) :
    Truth (evalWith inner) env (between value min max comment) (min ≤ n ∧ n ≤ max) := by
  unfold between
  split
  · next same =>
    subst same
    have only : decide (min ≤ n ∧ n ≤ min) = decide (n = min) := by
      rw [decide_eq_decide]
      omega
    rw [only]
    exact truth_withComment _ (truth_compares .strictEq (by decide) counts (counts_number low))
  · split
    · have empty : decide (min ≤ n ∧ n ≤ max) = false := by
        rw [decide_eq_false_iff_not]
        omega
      rw [empty]
      exact truth_withComment _ (truth_bool false)
    · split
      · next narrow => exact truth_withComment _ (truth_probe counts low narrow)
      · exact truth_withComment _ (truth_rangeCall counts low high)

/-- The places of the table that a probe for a range takes, from the first one up to the second. -/
def probeSlice (min max : Int) : Nat × Nat :=
  if 0 ≤ min ∧ max < rangeTable.length then (min.toNat, max.toNat + 1) else (0, (max - min + 1).toNat)

theorem probeText_slice {min max : Int} (upward : min < max) :
    probeText min max = rangeTable.extract (probeSlice min max).1 (probeSlice min max).2 := by
  unfold probeText probeSlice
  simp only
  split
  · have count : (max - min + 1).toNat = max.toNat + 1 - min.toNat := by omega
    rw [count, List.extract_eq_take_drop]
  · rw [List.extract_eq_take_drop, List.drop_zero, Nat.sub_zero]

/-- A range that is probed for takes no place that the table has not. -/
theorem probeSlice_within {min max : Int} (upward : min < max) (narrow : max - min < probeSpan) :
    (probeSlice min max).1 ≤ (probeSlice min max).2 ∧ (probeSlice min max).2 ≤ rangeTable.length := by
  have table : rangeTable.length = 36 := rfl
  unfold probeSpan at narrow
  unfold probeSlice
  split
  · constructor
    · show min.toNat ≤ max.toNat + 1
      omega
    · show max.toNat + 1 ≤ rangeTable.length
      omega
  · constructor
    · exact Nat.zero_le _
    · show (max - min + 1).toNat ≤ rangeTable.length
      omega

/-- The value of the expression is a number, and the given integer. -/
def IsInteger (env : Env) (e : Expr) (n : Int) : Prop := ∃ x, eval env e = .ok (.number x) ∧ x.Stands n

/-- Both forms of a range check have a value for an integer, and are true just when it lies between the bounds; and
    where a probe is built, its string is a part of the table that lies within the table. -/
theorem evalBool_between {env : Env} {value : Expr} {n min max : Int} (integer : IsInteger env value n)
    (low : IsExact min) (high : IsExact max) (comment : Option Text) :
    evalBool env (between value min max comment) = .ok (min ≤ n ∧ n ≤ max) ∧
      evalBool env (plainRange value min max) = .ok (min ≤ n ∧ n ≤ max) ∧
      (min < max → max - min < probeSpan →
        probeText min max = rangeTable.extract (probeSlice min max).1 (probeSlice min max).2 ∧
          (probeSlice min max).1 ≤ (probeSlice min max).2 ∧ (probeSlice min max).2 ≤ rangeTable.length) := by
  -- the value is needed at the depth of calls at which it is given, so the depth is fixed first
  obtain ⟨inner, same⟩ := eval_eq
  have counts : Counts (evalWith inner) env value n := by
    obtain ⟨x, answer, stands⟩ := integer
    rw [same] at answer
    exact ⟨x, answer, stands⟩
  have answers {e : Expr} {b : Bool} (truth : Truth (evalWith inner) env e b) : evalBool env e = .ok b := by
    obtain ⟨v, answer, truthy⟩ := truth
    rw [evalBool, same, answer, ← truthy]
    rfl
  refine ⟨?_, ?_, ?_⟩
  · apply answers
    exact truth_between counts low high comment
  · apply answers
    exact truth_plainRange counts low high
  · intro upward narrow
    exact ⟨probeText_slice upward, probeSlice_within upward narrow⟩

/-- The narrowest of the ranges that a function is called for; the value has the name of one of its parameters. -/
theorem evalBool_between_called :
    IsInteger ⟨[("min".toList, .number (Binary64.ofInt 65))], .ofNumbers 2024 1 7 0 0⟩ (name "min") 65 ∧
      IsExact 33 ∧ IsExact 65 ∧
      evalBool ⟨[("min".toList, .number (Binary64.ofInt 65))], .ofNumbers 2024 1 7 0 0⟩
        (between (name "min") 33 65 none) = .ok true ∧
      evalBool ⟨[("min".toList, .number (Binary64.ofInt 65))], .ofNumbers 2024 1 7 0 0⟩
        (plainRange (name "min") 33 65) = .ok true := by
  have integer : IsInteger ⟨[("min".toList, .number (Binary64.ofInt 65))], .ofNumbers 2024 1 7 0 0⟩ (name "min") 65 :=
    ⟨_, rfl, Binary64.stands_ofInt (by decide)⟩
  have low : IsExact 33 := by decide
  have high : IsExact 65 := by decide
  obtain ⟨answer, plain, _⟩ := evalBool_between integer low high none
  exact ⟨integer, low, high, answer, plain⟩

end ProxyRouting.Expr
