import ProxyRouting.Expr.Eval
import ProxyRouting.Proofs.Number.Exact
import ProxyRouting.Proofs.Regex.Slashes

/-!
The values of the expressions that conditions are made of, one equation for each way to build one, and
their truth: `Truth` says that an expression has a value, and that it counts as true just when something
does. The name of the second given function for networks may be free, all others are bound.
-/
namespace ProxyRouting

/-- What a script is given for a request: its parts, the functions, and the time. -/
structure Env.Serves (env : Env) (r : Request) (now : LocalTime) : Prop where
  url : env.get? "url".toList = some (.string r.url)
  host : env.get? "host".toList = some (.string r.host)
  scheme : env.get? "scheme".toList = some (.string r.scheme)
  isInNet : env.get? "isInNet".toList = some (.builtin .isInNet)
  date : env.get? "Date".toList = some (.builtin .date)
  isInNetEx : env.get? "isInNetEx".toList = some (.builtin .isInNetEx) ∨ env.get? "isInNetEx".toList = none
  time : env.now = now

theorem serves_ofRequest (r : Request) (now : LocalTime) : (Env.ofRequest r now).Serves r now :=
  ⟨rfl, rfl, rfl, rfl, rfl, .inl rfl, rfl⟩

theorem serves_free {env : Env} {r : Request} {now : LocalTime} (serves : env.Serves r now) :
    (env.free "isInNetEx".toList).Serves r now := by
  have other {name : Text} (apart : name ≠ "isInNetEx".toList) :
      (env.free "isInNetEx".toList).get? name = env.get? name := by rw [Env.get?_free, if_neg apart]
  have freed : (env.free "isInNetEx".toList).get? "isInNetEx".toList = none := by rw [Env.get?_free, if_pos rfl]
  exact ⟨(other (by decide)).trans serves.url, (other (by decide)).trans serves.host,
    (other (by decide)).trans serves.scheme, (other (by decide)).trans serves.isInNet,
    (other (by decide)).trans serves.date, .inr freed, serves.time⟩

namespace Expr
attribute [local simp] evalWith evalArgs

/-- Of the depth of calls two is left wherever an evaluation begins. -/
theorem eval_eq : ∃ inner, ∀ env e, eval env e = evalWith (evalWith inner) env e :=
  ⟨evalWithin (2 ^ 32 - 2), fun _ _ => rfl⟩

section
variable {call : Env → Expr → Except EvalError Value} {env : Env}

theorem evalWith_name {s : String} {v : Value} (bound : env.get? s.toList = some v) :
    evalWith call env (name s) = .ok v := by
  simp [name, bound]

theorem evalWith_binary (op : BinaryOp) {left right : Expr} {l r : Value} (first : evalWith call env left = .ok l)
    (second : evalWith call env right = .ok r) : evalWith call env (.binary op left right) = .ok (l.applyOp op r) := by
  simp only [evalWith, first, second, bind, Except.bind]
  split
  · next decided =>
    rcases decided with ⟨rfl, falsy⟩ | ⟨rfl, truthy⟩
    · simp [Value.applyOp, falsy]
    · simp [Value.applyOp, truthy]
  · rfl

theorem evalArgs_one {e : Expr} {v : Value} (value : evalWith call env e = .ok v) : evalArgs call env [e] = .ok [v] := by
  simp [value, bind, Except.bind]

theorem evalWith_call {callee : Expr} {args : List Expr} {f v : Value} {vs : List Value}
    (function : evalWith call env callee = .ok f) (values : evalArgs call env args = .ok vs)
    (answer : f.call call env vs = .ok v) : evalWith call env (.call callee args) = .ok v := by
  simp [function, values, bind, Except.bind, answer]

theorem evalWith_member {target : Expr} {property : Text} {v w : Value} (value : evalWith call env target = .ok v)
    (found : v.member property = .ok w) : evalWith call env (.member target property) = .ok w := by
  simp [value, bind, Except.bind, found]

theorem evalWith_subscript {target index : Expr} {v i w : Value} (value : evalWith call env target = .ok v)
    (position : evalWith call env index = .ok i) (found : v.subscript i = .ok w) :
    evalWith call env (.subscript target index) = .ok w := by
  simp [value, position, bind, Except.bind, found]

theorem evalWith_method {target : Expr} {property : String} {args : List Expr} {v : Value} {m : Method}
    {vs : List Value} (receiver : evalWith call env target = .ok v) (known : v.method? property.toList = some m)
    (values : evalArgs call env args = .ok vs) :
    evalWith call env (target.method property args) = .ok (Value.callMethod v m (vs.head?.getD .undefined)) := by
  refine evalWith_call (f := .method v m) (evalWith_member receiver ?_) values rfl
  simp only [Value.member, known]

theorem regexLiteral_source (search : Regex.Search) :
    regexLiteral (Regex.escapeSlashes search.source) = .ok (.regex (Regex.unescapeSlashes search.source)) := by
  obtain ⟨p, compiled, _⟩ := Regex.compile_source search
  unfold Regex.compile at compiled
  rw [regexLiteral, Regex.unescape_escapeSlashes]
  split at compiled
  · cases compiled
  · next read => rw [read]

theorem regexTest_source (search : Regex.Search) (t : Text) :
    Value.regexTest (Regex.unescapeSlashes search.source) t = search.finds t := by
  obtain ⟨p, compiled, same⟩ := Regex.compile_source search
  rw [Value.regexTest, compiled]
  exact same t

/-- The expression has a value, and counts as the given truth value. -/
def Truth (call : Env → Expr → Except EvalError Value) (env : Env) (e : Expr) (b : Bool) : Prop :=
  ∃ v, evalWith call env e = .ok v ∧ v.truthy = b

theorem truth_bool (b : Bool) : Truth call env (.bool b) b := ⟨.bool b, by rw [evalWith], rfl⟩

theorem truth_and {left right : Expr} {a b : Bool} (first : Truth call env left a) (second : Truth call env right b) :
    Truth call env (.binary .and left right) (a && b) := by
  obtain ⟨l, value, rfl⟩ := first
  obtain ⟨r, value', rfl⟩ := second
  refine ⟨_, evalWith_binary .and value value', ?_⟩
  cases truthy : l.truthy <;> simp [Value.applyOp, truthy]

theorem truth_or {left right : Expr} {a b : Bool} (first : Truth call env left a) (second : Truth call env right b) :
    Truth call env (.binary .or left right) (a || b) := by
  obtain ⟨l, value, rfl⟩ := first
  obtain ⟨r, value', rfl⟩ := second
  refine ⟨_, evalWith_binary .or value value', ?_⟩
  cases truthy : l.truthy <;> simp [Value.applyOp, truthy]

/-- A conditional whose branches agree has their truth, of which only the one chosen matters. -/
theorem truth_conditional {test consequent alternative : Expr} {c a : Bool} (chooses : Truth call env test c)
    (first : c = true → Truth call env consequent a) (second : c = false → Truth call env alternative a) :
    Truth call env (.conditional test consequent alternative) a := by
  obtain ⟨t, value, rfl⟩ := chooses
  cases truthy : t.truthy with
  | true =>
    obtain ⟨v, value', rfl⟩ := first truthy
    exact ⟨v, by simp only [evalWith, value, bind, Except.bind, truthy, ↓reduceIte, value'], rfl⟩
  | false =>
    obtain ⟨v, value', rfl⟩ := second truthy
    exact ⟨v, by simp only [evalWith, value, bind, Except.bind, truthy, Bool.false_eq_true, ↓reduceIte, value'], rfl⟩

theorem truth_withComment {e : Expr} {b : Bool} (comment : Text) (truth : Truth call env e b) :
    Truth call env (e.withComment comment) b := by
  obtain ⟨v, value, rfl⟩ := truth
  unfold withComment
  split
  · exact ⟨v, value, rfl⟩
  · exact ⟨v, by rw [evalWith, value], rfl⟩

/-- An operator between expressions in a row combines what they count as, from the first on. -/
theorem truth_foldl {op : BinaryOp} {combine : Bool → Bool → Bool}
    (step : ∀ {left right : Expr} {a b : Bool}, Truth call env left a → Truth call env right b →
      Truth call env (.binary op left right) (combine a b))
    {e : Expr} {a : Bool} {es : List Expr} {answers : List Bool} (first : Truth call env e a)
    (each : List.Forall₂ (Truth call env) es answers) :
    Truth call env (es.foldl (.binary op) e) (answers.foldl combine a) := by
  induction each generalizing e a with
  | nil => exact first
  | cons truth _ ih => exact ih (step first truth)

/-- All of the expressions hold just when all of what they count as does. -/
theorem truth_allOf {es : List Expr} {answers : List Bool} (each : List.Forall₂ (Truth call env) es answers) :
    Truth call env (allOf es) (answers.all id) := by
  cases each with
  | nil => exact truth_bool true
  | @cons e a es answers truth others =>
    have folded (a : Bool) (answers : List Bool) : answers.foldl (· && ·) a = (a && answers.all id) := by
      induction answers generalizing a with
      | nil => simp
      | cons b answers ih => simp [ih, Bool.and_assoc]
    have holds := truth_foldl truth_and truth others
    rw [folded] at holds
    exact holds

/-- One of the expressions holds just when one of what they count as does. -/
theorem truth_anyOf {es : List Expr} {answers : List Bool} (each : List.Forall₂ (Truth call env) es answers) :
    Truth call env (anyOf es) (answers.any id) := by
  cases each with
  | nil => exact truth_bool false
  | @cons e a es answers truth others =>
    have folded (a : Bool) (answers : List Bool) : answers.foldl (· || ·) a = (a || answers.any id) := by
      induction answers generalizing a with
      | nil => simp
      | cons b answers ih => simp [ih, Bool.or_assoc]
    have holds := truth_foldl truth_or truth others
    rw [folded] at holds
    exact holds

/-- The test of a search in an expression finds what the search does. -/
theorem truth_search (search : Regex.Search) {subject : String} {t : Text}
    (bound : env.get? subject.toList = some (.string t)) :
    Truth call env (search.toExpr subject) (search.finds t) := by
  have literal : evalWith call env (ofRegex search.source) = .ok (.regex (Regex.unescapeSlashes search.source)) := by
    rw [ofRegex, evalWith, regexLiteral_source]
  refine ⟨_, evalWith_method literal rfl (evalArgs_one (evalWith_name bound)), ?_⟩
  exact regexTest_source search t

end

theorem evalBool_of_truth {env : Env} {e : Expr} {b : Bool} (truth : ∀ inner, Truth (evalWith inner) env e b) :
    evalBool env e = .ok b := by
  obtain ⟨inner, same⟩ := eval_eq
  obtain ⟨v, value, rfl⟩ := truth inner
  rw [evalBool, same, value]
  rfl

end Expr
end ProxyRouting
