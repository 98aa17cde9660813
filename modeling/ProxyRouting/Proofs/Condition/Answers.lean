import ProxyRouting.Proofs.Condition.Compile

/-!
The expression of a condition has a value wherever the parts of a request are bound (`answers_toExpr`). Nothing is
asked of the request: a host too long for its characters to be counted is still counted as something, and a host
that looks like an address of the wrong family still looks like something. How deep the calls around the
expression are nested does not change what it counts as.
-/
namespace ProxyRouting
namespace Expr

/-- The expression has a value, which counts as the same however functions inside of functions are called. -/
def Answers (env : Env) (e : Expr) : Prop := ∃ b, ∀ inner, Truth (evalWith inner) env e b

section
variable {env : Env}

theorem answers_and {left right : Expr} (first : Answers env left) (second : Answers env right) :
    Answers env (.binary .and left right) := by
  obtain ⟨a, first⟩ := first
  obtain ⟨b, second⟩ := second
  exact ⟨a && b, fun inner => truth_and (first inner) (second inner)⟩

theorem eval_of_answers {e : Expr} (answers : Answers env e) : ∃ v, eval env e = .ok v := by
  obtain ⟨b, truth⟩ := answers
  obtain ⟨inner, same⟩ := eval_eq
  obtain ⟨v, value, _⟩ := truth inner
  exact ⟨v, (same env e).trans value⟩

/-- Expressions that have values have them in a row. -/
theorem forall₂_of_answers {es : List Expr} (each : ∀ e ∈ es, Answers env e) :
    ∃ answers, ∀ inner, List.Forall₂ (Truth (evalWith inner) env) es answers := by
  induction es with
  | nil => exact ⟨[], fun _ => .nil⟩
  | cons e es ih =>
    obtain ⟨b, truth⟩ := each e List.mem_cons_self
    obtain ⟨answers, others⟩ := ih fun e member => each e (List.mem_cons_of_mem _ member)
    exact ⟨b :: answers, fun inner => .cons (truth inner) (others inner)⟩

theorem answers_allOf {es : List Expr} (each : ∀ e ∈ es, Answers env e) : Answers env (allOf es) := by
  obtain ⟨answers, truths⟩ := forall₂_of_answers each
  exact ⟨answers.all id, fun inner => truth_allOf (truths inner)⟩

theorem answers_anyOf {es : List Expr} (each : ∀ e ∈ es, Answers env e) : Answers env (anyOf es) := by
  obtain ⟨answers, truths⟩ := forall₂_of_answers each
  exact ⟨answers.any id, fun inner => truth_anyOf (truths inner)⟩

theorem answers_withComment {e : Expr} (comment : Text) (answers : Answers env e) : Answers env (e.withComment comment) := by
  obtain ⟨b, truth⟩ := answers
  exact ⟨b, fun inner => truth_withComment comment (truth inner)⟩

/-- Two values are compared whatever they are. -/
theorem answers_compared (op : BinaryOp) {left right : Expr} {v w : Value}
    (first : ∀ call, evalWith call env left = .ok v) (second : ∀ call, evalWith call env right = .ok w) :
    Answers env (.binary op left right) :=
  ⟨(v.applyOp op w).truthy, fun _ => ⟨_, evalWith_binary op (first _) (second _), rfl⟩⟩

theorem evalWith_number (n : Int) (call : Env → Expr → Except EvalError Value) :
    evalWith call env (.number n) = .ok (.number (Binary64.ofInt n)) := by rw [evalWith]

theorem answers_probe {value : Expr} {x : Binary64} (number : ∀ call, evalWith call env value = .ok (.number x))
    (min max : Int) : Answers env (probe value min max) := by
  have index : ∃ y, ∀ call, evalWith call env (fromBound value min) = .ok (.number y) := by
    unfold fromBound
    split
    · exact ⟨x, number⟩
    · exact ⟨_, fun call => evalWith_binary .sub (number call) (evalWith_number min call)⟩
  obtain ⟨y, index⟩ := index
  have code (call : Env → Expr → Except EvalError Value) :
      evalWith call env ((Expr.string (probeText min max)).method "charCodeAt" [fromBound value min]) =
        .ok (Value.charCode (probeText min max) (.number y)) :=
    evalWith_method (m := .charCodeAt) (evalWith_string _) rfl (evalArgs_one (index call))
  exact answers_compared .gt code (evalWith_number 0)

theorem answers_rangeCall {value : Expr} {x : Binary64} (number : ∀ call, evalWith call env value = .ok (.number x))
    (min max : Int) : Answers env (rangeCall value min max) := by
  refine ⟨((Value.number (Binary64.ofInt min)).applyOp .le (.number x)).truthy &&
    ((Value.number x).applyOp .le (.number (Binary64.ofInt max))).truthy, fun inner => ?_⟩
  refine truth_rangeBody (number _) fun inside bound least most => ?_
  exact truth_and ⟨_, evalWith_binary .le (evalWith_name least) (evalWith_name bound), rfl⟩
    ⟨_, evalWith_binary .le (evalWith_name bound) (evalWith_name most), rfl⟩

/-- A range check answers for any number, even for one that stands for no integer. -/
theorem answers_between {value : Expr} {x : Binary64} (number : ∀ call, evalWith call env value = .ok (.number x))
    (min max : Int) (comment : Option Text) : Answers env (between value min max comment) := by
  unfold between
  split
  · exact answers_withComment _ (answers_compared .strictEq number (evalWith_number min))
  · split
    · exact answers_withComment _ ⟨false, fun _ => truth_bool false⟩
    · split
      · exact answers_withComment _ (answers_probe number min max)
      · exact answers_withComment _ (answers_rangeCall number min max)

end
end Expr
open ProxyRouting.Expr

section
variable {env : Env} {r : Request} {now : LocalTime}

theorem answers_familyExpr (serves : env.Serves r now) (n : Ip.Network) : Answers env n.familyExpr := by
  have host (call : Env → Expr → Except EvalError Value) : evalWith call env (.name "host") = .ok (.string r.host) :=
    evalWith_name serves.host
  unfold Ip.Network.familyExpr
  simp only
  split
  · have known (t : Text) : (Value.string t).member "length".toList = .ok (.ofNat (Text.unitLength t)) := rfl
    have index (call : Env → Expr → Except EvalError Value) :=
      evalWith_binary .sub (evalWith_member (host call) (known r.host)) (evalWith_number 1 call)
    exact answers_compared .ge (fun call => evalWith_subscript (host call) (index call) rfl) (evalWith_number 0)
  · exact ⟨_, fun inner => truth_found (host _) [':']⟩

theorem answers_networkExpr (serves : env.Serves r now) (n : Ip.Network) : Answers env n.toExpr := by
  have family := answers_familyExpr serves n
  unfold Ip.Network.toExpr
  simp only
  split
  · exact family
  · split
    · exact answers_and family ⟨_, fun inner => truth_byMask serves n⟩
    · exact answers_and family ⟨_, fun inner => truth_known serves n⟩

/-- Any entry answers, also one that no text gives. -/
theorem answers_bypassExpr (serves : env.Serves r now) (b : Bypass) : Answers env b.toExpr := by
  have parts : Answers env (.allOf (b.scheme.toList.map Bypass.schemeExpr ++ b.hostExprs)) := by
    refine answers_allOf fun e member => ?_
    rcases List.mem_append.1 member with scheme | host
    · obtain ⟨name, _, rfl⟩ := List.mem_map.1 scheme
      exact ⟨_, fun inner => truth_schemeExpr serves name⟩
    · unfold Bypass.hostExprs at host
      split at host
      · obtain rfl := List.mem_singleton.1 host
        exact ⟨_, fun inner => truth_search _ serves.host⟩
      · obtain rfl := List.mem_singleton.1 host
        exact answers_networkExpr serves _
      · cases host
  unfold Bypass.toExpr
  split
  · exact ⟨_, fun inner => truth_search _ serves.url⟩
  · exact ⟨_, fun inner => truth_localExpr serves⟩
  · exact parts

/-- Whatever an analysis is compiled to has a value for every request. -/
theorem answers_toExpr (serves : env.Serves r now) (a : Analysis) : Answers env a.toExpr := by
  cases a with
  | constant b => exact ⟨b, fun _ => truth_bool b⟩
  | url search => exact ⟨_, fun _ => truth_search search serves.url⟩
  | host search => exact ⟨_, fun _ => truth_search search serves.host⟩
  | bypass entry => exact answers_bypassExpr serves entry
  | keyword t => exact ⟨_, fun _ => truth_keywordExpr serves t⟩
  | ip network => exact answers_networkExpr serves network
  | hostLevels min max => exact answers_between (fun _ => evalWith_splitLength (evalWith_name serves.host) '.') _ _ _
  | weekday rule => exact ⟨_, fun _ => truth_weekdayExpr serves rule⟩
  | time first last => exact ⟨_, fun _ => truth_hourExpr serves first last⟩

theorem answers_of_toExpr {c : Condition} {e : Expr} (compiled : c.toExpr = .ok e) (serves : env.Serves r now) :
    Answers env e := by
  unfold Condition.toExpr at compiled
  cases analyzed : c.analyze with
  | error error => rw [analyzed] at compiled; cases compiled
  | ok a =>
    rw [analyzed] at compiled
    cases compiled
    exact answers_toExpr serves a

end
end ProxyRouting
