import ProxyRouting.Proofs.Condition.Answers
import ProxyRouting.RuleList.Script

/-!
The predicate of a list is the disjunction of its conditions (`predicate_disjunction`). A list is refused with the
words of the first condition that is. Otherwise the predicate has a value wherever the conditions have one, and
the function of the list, called with the parts of a request, answers as the predicate does in the environment of
the request: its parameters are bound there to the same values.
-/
namespace ProxyRouting
namespace Expr
variable {env : Env}

/-- An expression is evaluated like the body of a function that a called function calls. -/
theorem eval_deep : ∃ inner, ∀ env e, eval env e = evalWith (evalWith (evalWith inner)) env e :=
  ⟨evalWithin (2 ^ 32 - 3), fun _ _ => rfl⟩

theorem evalBool_ok_iff {call : Env → Expr → Except EvalError Value} (same : ∀ env e, eval env e = evalWith call env e)
    {e : Expr} {b : Bool} : evalBool env e = .ok b ↔ Truth call env e b := by
  unfold evalBool Truth
  rw [same]
  cases evalWith call env e with
  | error error => simp [Except.map]
  | ok v => simp [Except.map]

/-- Expressions that have a value have one as a disjunction, true if one of theirs is. -/
theorem evalBool_anyOf {es : List Expr} (each : ∀ e ∈ es, ∃ b, evalBool env e = .ok b) :
    ∃ b, evalBool env (anyOf es) = .ok b ∧ (b = true ↔ ∃ e ∈ es, evalBool env e = .ok true) := by
  obtain ⟨inner, same⟩ := eval_eq
  simp only [evalBool_ok_iff same] at each ⊢
  have listed : ∃ answers, List.Forall₂ (Truth (evalWith inner) env) es answers ∧
      (answers.any id = true ↔ ∃ e ∈ es, Truth (evalWith inner) env e true) := by
    induction es with
    | nil => exact ⟨[], .nil, by simp⟩
    | cons e es ih =>
      obtain ⟨b, truth⟩ := each e List.mem_cons_self
      obtain ⟨answers, others, holds⟩ := ih fun e member => each e (List.mem_cons_of_mem _ member)
      refine ⟨b :: answers, .cons truth others, ?_⟩
      have only : b = true ↔ Truth (evalWith inner) env e true := by
        constructor
        · rintro rfl
          exact truth
        · intro again
          obtain ⟨v, value, rfl⟩ := truth
          obtain ⟨w, value', truthy⟩ := again
          rw [value] at value'
          cases value'
          exact truthy
      simp only [List.any_cons, Bool.or_eq_true, id_eq, List.mem_cons, exists_eq_or_imp, holds, only]
  obtain ⟨answers, truths, holds⟩ := listed
  exact ⟨answers.any id, truth_anyOf truths, holds⟩

theorem evalBool_withComment (comment : Text) (e : Expr) : evalBool env (e.withComment comment) = evalBool env e := by
  obtain ⟨inner, same⟩ := eval_eq
  unfold withComment
  split
  · rfl
  · simp only [evalBool, same, evalWith]

end Expr
open ProxyRouting.Expr

namespace RuleList

section
variable {α β ε : Type} {f : α → Except ε β} {xs : List α}

theorem mapM_cons_of_error {x : α} {error : ε} (refused : f x = .error error) : (x :: xs).mapM f = .error error := by
  rw [List.mapM_cons, refused]
  rfl

theorem mapM_cons_of_ok {x : α} {y : β} (passed : f x = .ok y) : (x :: xs).mapM f = (xs.mapM f).map (y :: ·) := by
  rw [List.mapM_cons, passed]
  cases xs.mapM f <;> rfl

theorem mapM_ok_iff {ys : List β} : xs.mapM f = .ok ys ↔ List.Forall₂ (fun x y => f x = .ok y) xs ys := by
  induction xs generalizing ys with
  | nil =>
    constructor
    · rintro ⟨⟩
      exact .nil
    · rintro ⟨⟩
      rfl
  | cons x xs ih =>
    constructor
    · intro passed
      cases head : f x with
      | error error =>
        rw [mapM_cons_of_error head] at passed
        cases passed
      | ok y =>
        rw [mapM_cons_of_ok head] at passed
        cases tail : xs.mapM f with
        | error error =>
          rw [tail] at passed
          cases passed
        | ok others =>
          rw [tail] at passed
          cases passed
          exact .cons head (ih.1 tail)
    · rintro (_ | ⟨head, tail⟩)
      rw [mapM_cons_of_ok head, ih.2 tail]
      rfl

theorem mapM_append_error {before after : List α} {x : α} {error : ε} (fine : ∀ d ∈ before, ∃ y, f d = .ok y)
    (refused : f x = .error error) : (before ++ x :: after).mapM f = .error error := by
  induction before with
  | nil => exact mapM_cons_of_error refused
  | cons d before ih =>
    obtain ⟨y, passed⟩ := fine d List.mem_cons_self
    rw [List.cons_append, mapM_cons_of_ok passed, ih fun c member => fine c (List.mem_cons_of_mem _ member)]
    rfl

/-- What a list is refused with is what the first of its items to be refused is refused with. -/
theorem mapM_error_iff {error : ε} : xs.mapM f = .error error ↔
    ∃ before x after, xs = before ++ x :: after ∧ (∀ d ∈ before, ∃ y, f d = .ok y) ∧ f x = .error error := by
  constructor
  · intro failed
    induction xs with
    | nil => cases failed
    | cons x xs ih =>
      cases head : f x with
      | error refusal =>
        rw [mapM_cons_of_error head] at failed
        cases failed
        exact ⟨[], x, xs, rfl, List.forall_mem_nil _, head⟩
      | ok y =>
        have rest : xs.mapM f = .error error := by
          rw [mapM_cons_of_ok head] at failed
          cases tail : xs.mapM f with
          | error refusal => simpa [tail, Except.map] using failed
          | ok others => simp [tail, Except.map] at failed
        obtain ⟨before, d, after, rfl, fine, refused⟩ := ih rest
        exact ⟨x :: before, d, after, rfl, List.forall_mem_cons.2 ⟨⟨y, head⟩, fine⟩, refused⟩
  · rintro ⟨before, x, after, rfl, fine, refused⟩
    exact mapM_append_error fine refused

end

variable {cs : RuleList} {c : Condition} {e p : Expr}

theorem annotated_ok_iff : annotated c = .ok e ↔ ∃ bare, c.toExpr = .ok bare ∧ bare.withComment c.toText = e := by
  unfold annotated
  cases c.toExpr <;> simp [Except.map]

/-- An annotated expression is that of an analysis under the text of the condition. -/
theorem analysis_of_annotated (annotated : annotated c = .ok e) :
    ∃ a, c.analyze = .ok a ∧ a.toExpr.withComment c.toText = e := by
  obtain ⟨bare, compiled, rfl⟩ := annotated_ok_iff.1 annotated
  rw [Condition.toExpr] at compiled
  cases analyzed : c.analyze with
  | error error =>
    rw [analyzed] at compiled
    cases compiled
  | ok a =>
    rw [analyzed] at compiled
    cases compiled
    exact ⟨a, rfl, rfl⟩

theorem annotated_error_iff {error : ConditionError} : annotated c = .error error ↔ c.toExpr = .error error := by
  unfold annotated
  cases c.toExpr <;> simp [Except.map]

theorem predicate_ok_iff : predicate cs = .ok p ↔
    ∃ es, List.Forall₂ (fun c e => annotated c = .ok e) cs es ∧ anyOf es = p := by
  unfold predicate
  cases compiled : cs.mapM annotated with
  | error error => simp [Except.map, ← mapM_ok_iff, compiled]
  | ok es => simp [Except.map, ← mapM_ok_iff, compiled]

/-- A list is refused with the words of the first of its conditions that is. -/
theorem predicate_error_iff {error : ConditionError} : predicate cs = .error error ↔
    ∃ before c after, cs = before ++ c :: after ∧ (∀ d ∈ before, ∃ e, d.toExpr = .ok e) ∧ c.toExpr = .error error := by
  have refused : predicate cs = .error error ↔ cs.mapM annotated = .error error := by
    unfold predicate
    cases cs.mapM annotated <;> simp [Except.map]
  have compiles (d : Condition) : (∃ e, annotated d = .ok e) ↔ ∃ e, d.toExpr = .ok e := by
    simp only [annotated_ok_iff]
    constructor
    · rintro ⟨_, e, compiled, _⟩
      exact ⟨e, compiled⟩
    · rintro ⟨e, compiled⟩
      exact ⟨_, e, compiled, rfl⟩
  rw [refused, mapM_error_iff]
  simp only [compiles, annotated_error_iff]

theorem mem_of_forall₂ {α β : Type} {R : α → β → Prop} {xs : List α} {ys : List β} (each : List.Forall₂ R xs ys) :
    (∀ y ∈ ys, ∃ x ∈ xs, R x y) ∧ ∀ x ∈ xs, ∃ y ∈ ys, R x y := by
  induction each with
  | nil => simp
  | cons related _ ih =>
    obtain ⟨left, right⟩ := ih
    constructor
    · intro y member
      rcases List.mem_cons.1 member with rfl | member
      · exact ⟨_, List.mem_cons_self, related⟩
      · obtain ⟨x, within, here⟩ := left y member
        exact ⟨x, List.mem_cons_of_mem _ within, here⟩
    · intro x member
      rcases List.mem_cons.1 member with rfl | member
      · exact ⟨_, List.mem_cons_self, related⟩
      · obtain ⟨y, within, here⟩ := right x member
        exact ⟨y, List.mem_cons_of_mem _ within, here⟩

/-- The predicate has a value where each of its conditions has one, true if one of theirs is. -/
theorem evalBool_predicate {env : Env} (compiled : predicate cs = .ok p)
    (defined : ∀ c ∈ cs, ∀ e, c.toExpr = .ok e → ∃ v, eval env e = .ok v) :
    ∃ b, evalBool env p = .ok b ∧ (b = true ↔ ∃ c ∈ cs, ∃ e, c.toExpr = .ok e ∧ evalBool env e = .ok true) := by
  obtain ⟨es, each, rfl⟩ := predicate_ok_iff.1 compiled
  obtain ⟨origin, image⟩ := mem_of_forall₂ each
  have values : ∀ e ∈ es, ∃ b, evalBool env e = .ok b := by
    intro e member
    obtain ⟨c, listed, commented⟩ := origin e member
    obtain ⟨bare, bareCompiled, rfl⟩ := annotated_ok_iff.1 commented
    obtain ⟨v, value⟩ := defined c listed bare bareCompiled
    exact ⟨v.truthy, by rw [evalBool_withComment, evalBool, value]; rfl⟩
  obtain ⟨b, answer, holds⟩ := evalBool_anyOf values
  refine ⟨b, answer, holds.trans ?_⟩
  constructor
  · rintro ⟨e, member, truth⟩
    obtain ⟨c, listed, commented⟩ := origin e member
    obtain ⟨bare, bareCompiled, rfl⟩ := annotated_ok_iff.1 commented
    rw [evalBool_withComment] at truth
    exact ⟨c, listed, bare, bareCompiled, truth⟩
  · rintro ⟨c, listed, bare, bareCompiled, truth⟩
    obtain ⟨e, member, commented⟩ := image c listed
    obtain ⟨again, compiledAgain, rfl⟩ := annotated_ok_iff.1 commented
    rw [bareCompiled] at compiledAgain
    cases compiledAgain
    exact ⟨_, member, by rw [evalBool_withComment, truth]⟩

/-- The predicate of a list answers for every request. -/
theorem answers_predicate {env : Env} {r : Request} {now : LocalTime} (compiled : predicate cs = .ok p)
    (serves : env.Serves r now) : Answers env p := by
  obtain ⟨es, each, rfl⟩ := predicate_ok_iff.1 compiled
  refine answers_anyOf fun e member => ?_
  obtain ⟨c, _, commented⟩ := (mem_of_forall₂ each).1 e member
  obtain ⟨bare, bareCompiled, rfl⟩ := annotated_ok_iff.1 commented
  exact answers_withComment _ (answers_of_toExpr bareCompiled serves)

theorem bindParams_parameters (r : Request) (now : LocalTime) :
    (Env.initial now).bindParams parameters [.string r.url, .string r.host, .string r.scheme] = Env.ofRequest r now := rfl

/-- A function called with the parts of a request counts as its body does in the environment of the request. -/
theorem truth_calledWithParts {inner : Env → Expr → Except EvalError Value} {r : Request} {now : LocalTime} {b : Bool}
    (truth : ∃ v, inner (Env.ofRequest r now) p = .ok v ∧ v.truthy = b) :
    Truth inner (Env.initial now) (.call (.function parameters p) [.string r.url, .string r.host, .string r.scheme]) b := by
  obtain ⟨v, value, truthy⟩ := truth
  have function : evalWith inner (Env.initial now) (.function parameters p) = .ok (.function parameters p) := by rw [evalWith]
  have args : evalArgs inner (Env.initial now) [.string r.url, .string r.host, .string r.scheme] =
      .ok [.string r.url, .string r.host, .string r.scheme] := by
    simp only [evalArgs, evalWith_string, bind, Except.bind]
  refine ⟨v, evalWith_call function args ?_, truthy⟩
  rw [Value.call, bindParams_parameters, value]

/-- The function of a list answers for a request as its predicate does. -/
theorem evalBool_matcher (compiled : predicate cs = .ok p) (r : Request) (now : LocalTime) :
    ∃ b, evalBool (Env.initial now)
        (.call (.function parameters p) [.string r.url, .string r.host, .string r.scheme]) = .ok b ∧
      evalBool (Env.ofRequest r now) p = .ok b := by
  obtain ⟨b, truth⟩ := answers_predicate compiled (serves_ofRequest r now)
  obtain ⟨inner, same⟩ := eval_deep
  exact ⟨b, (evalBool_ok_iff same).2 (truth_calledWithParts (truth inner)), evalBool_of_truth truth⟩

/-- The predicate of a list is the disjunction of its conditions, which are compiled in order, and answers for a
    request as the function of the list does. -/
theorem predicate_disjunction (cs : RuleList) :
    (∀ error, predicate cs = .error error ↔ ∃ before c after, cs = before ++ c :: after ∧
      (∀ d ∈ before, ∃ e, d.toExpr = .ok e) ∧ c.toExpr = .error error) ∧
    ∀ p, predicate cs = .ok p →
      (∀ env, (∀ c ∈ cs, ∀ e, c.toExpr = .ok e → ∃ v, eval env e = .ok v) →
        ∃ b, evalBool env p = .ok b ∧ (b = true ↔ ∃ c ∈ cs, ∃ e, c.toExpr = .ok e ∧ evalBool env e = .ok true)) ∧
      ∀ r now, ∃ m b, matcher cs = .ok m ∧
        evalBool (Env.initial now) (.call m [.string r.url, .string r.host, .string r.scheme]) = .ok b ∧
        evalBool (Env.ofRequest r now) p = .ok b := by
  refine ⟨fun _ => predicate_error_iff, fun p compiled => ⟨fun _ => evalBool_predicate compiled, fun r now => ?_⟩⟩
  obtain ⟨b, called, evaluated⟩ := evalBool_matcher compiled r now
  exact ⟨_, b, by rw [matcher, compiled]; rfl, called, evaluated⟩

theorem predicate_disjunction_of_two :
    (∃ p, predicate [.keyword "ads".toList, .ip "10.0.0.0".toList 8] = .ok p ∧ ∀ r now, ∃ b,
      evalBool (Env.ofRequest r now) p = .ok b ∧
        (b = true ↔ ∃ c ∈ [Condition.keyword "ads".toList, .ip "10.0.0.0".toList 8], ∃ e, c.toExpr = .ok e ∧
          evalBool (Env.ofRequest r now) e = .ok true)) ∧
    predicate [.always, .ip "a".toList 8, .ip "b".toList 8] = .error (.invalidIp "a/8".toList) := by
  constructor
  · obtain ⟨p, compiled⟩ : ∃ p, predicate [.keyword "ads".toList, .ip "10.0.0.0".toList 8] = .ok p := ⟨_, rfl⟩
    refine ⟨p, compiled, fun r now => ?_⟩
    refine ((predicate_disjunction _).2 p compiled).1 (Env.ofRequest r now) fun c _ e compiled => ?_
    exact eval_of_answers (answers_of_toExpr compiled (serves_ofRequest r now))
  · refine ((predicate_disjunction _).1 _).2 ⟨[.always], _, [.ip "b".toList 8], rfl, ?_, rfl⟩
    intro d member
    obtain rfl := List.mem_singleton.1 member
    exact ⟨_, rfl⟩

end RuleList
end ProxyRouting
