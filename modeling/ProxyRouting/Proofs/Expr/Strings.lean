import ProxyRouting.Proofs.Expr.Between
import ProxyRouting.Proofs.Text.Cut

/-!
Tests of strings: whether one is another, whether it has another in it, how many pieces it falls into. The
first two need no arithmetic, so strings may be of any size.
-/
namespace ProxyRouting.Expr

section
variable {call : Env → Expr → Except EvalError Value} {env : Env}

theorem evalWith_string (t : Text) : evalWith call env (.string t) = .ok (.string t) := by rw [evalWith]

/-- A name is compared with a string. -/
theorem truth_sameString {s : String} {t : Text} (bound : env.get? s.toList = some (.string t)) (u : Text) :
    Truth call env (.binary .strictEq (name s) (.string u)) (t = u) := by
  refine ⟨_, evalWith_binary .strictEq (evalWith_name bound) (evalWith_string u), ?_⟩
  by_cases same : t = u <;> simp [Value.applyOp, Value.strictEquals, Value.truthy, same]

theorem evalWith_indexOf {subject : Expr} {t : Text} (value : evalWith call env subject = .ok (.string t)) (part : Text) :
    evalWith call env (subject.method "indexOf" [.string part]) = .ok (Value.indexOf t part) :=
  evalWith_method (m := .indexOf) value rfl (evalArgs_one (evalWith_string part))

theorem compare?_indexOf (t part : Text) : ∃ o, Value.compare? (Value.indexOf t part) (.number (Binary64.ofInt 0)) = some o ∧
    o.isGE = Text.contains part t := by
  unfold Value.indexOf Text.contains
  cases Text.cut? part t with
  | some found =>
    obtain ⟨o, order, ge⟩ := Binary64.compare?_ofNat_zero (Text.unitLength found.1)
    exact ⟨o, order, ge⟩
  | none =>
    have order := Binary64.compare?_stands (Binary64.stands_ofInt (by decide : (-1 : Int).natAbs ≤ Binary64.exactBound))
      (Binary64.stands_ofInt (by decide : (0 : Int).natAbs ≤ Binary64.exactBound))
    exact ⟨_, order, by decide⟩

/-- A part is found at some index just when the string has it. -/
theorem truth_found {subject : Expr} {t : Text} (value : evalWith call env subject = .ok (.string t)) (part : Text) :
    Truth call env (.binary .ge (subject.method "indexOf" [.string part]) (.number 0)) (Text.contains part t) := by
  obtain ⟨o, order, same⟩ := compare?_indexOf t part
  refine ⟨_, evalWith_binary .ge (evalWith_indexOf value part) (by rw [evalWith]), ?_⟩
  simp only [Value.applyOp, order, Option.any_some, Value.truthy, same]

/-- A part that the string does not have is at no index. -/
theorem truth_missing {subject : Expr} {t : Text} (value : evalWith call env subject = .ok (.string t)) (part : Text) :
    Truth call env (.binary .lt (subject.method "indexOf" [.string part]) (.number 0)) (!Text.contains part t) := by
  obtain ⟨o, order, same⟩ := compare?_indexOf t part
  refine ⟨_, evalWith_binary .lt (evalWith_indexOf value part) (by rw [evalWith]), ?_⟩
  simp only [Value.applyOp, order, Option.any_some, Value.truthy, ← same]
  cases o <;> rfl

theorem length_split_single (sep : Char) (t : Text) : (Text.split [sep] t).length = t.count sep + 1 := by
  have pieces (t : Text) : (Text.piecesBetween [sep] (by simp) t).length = t.count sep + 1 := by
    fun_induction Text.piecesBetween [sep] (by simp) t with
    | case1 t none => simp [List.count_eq_zero_of_not_mem (Text.cut?_none.1 none)]
    | case2 t before after found ih =>
      rw [List.length_cons, ih, Text.cut?_eq found]
      simp [List.count_eq_zero_of_not_mem (Text.notMem_of_cut? found)]
  unfold Text.split
  rw [dif_neg (by simp)]
  exact pieces t

/-- The pieces between the occurrences of a character are one more than these. -/
theorem evalWith_splitLength {subject : Expr} {t : Text} (value : evalWith call env subject = .ok (.string t)) (sep : Char) :
    evalWith call env (.member (subject.method "split" [.string [sep]]) "length".toList) =
      .ok (.number (Binary64.ofNat (t.count sep + 1))) := by
  have pieces : evalWith call env (subject.method "split" [.string [sep]]) =
      .ok (.array ((Text.split [sep] t).map .string)) :=
    evalWith_method (m := .split) value rfl (evalArgs_one (evalWith_string [sep]))
  refine evalWith_member pieces ?_
  have unknown (items : List Value) : (Value.array items).member "length".toList = .ok (.ofNat items.length) := rfl
  rw [unknown, List.length_map, length_split_single]
  rfl

theorem counts_split {subject : Expr} {t : Text} (value : evalWith call env subject = .ok (.string t)) (sep : Char)
    (few : t.count sep < Binary64.exactBound) :
    Counts call env (.member (subject.method "split" [.string [sep]]) "length".toList) (t.count sep + 1) :=
  ⟨_, evalWith_splitLength value sep, Binary64.stands_ofNat few⟩

end
end ProxyRouting.Expr
