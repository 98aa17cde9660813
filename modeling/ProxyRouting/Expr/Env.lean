import ProxyRouting.Expr.Value
import ProxyRouting.Url

/-!
What the names of an expression stand for: the functions that scripts are given, the parts of a
request, and the time that `new Date()` answers with.
-/
namespace ProxyRouting

/-- The bindings, of which the first for a name counts, and the current time. -/
structure Env where
  bindings : List (Text × Value)
  now : LocalTime
  deriving Repr

namespace Env

/-- Only the given functions are bound. -/
def initial (now : LocalTime) : Env :=
  ⟨[("isInNet".toList, .builtin .isInNet), ("isInNetEx".toList, .builtin .isInNetEx),
    ("Date".toList, .builtin .date)], now⟩

/-- What a name stands for. -/
def get? (env : Env) (name : Text) : Option Value := env.bindings.lookup name

/-- Frees a name. -/
def free (env : Env) (name : Text) : Env :=
  { env with bindings := env.bindings.filter fun binding => binding.1 ≠ name }

/-- Binds a name in place of whatever it stood for. -/
def bind (env : Env) (name : Text) (v : Value) : Env :=
  { env with bindings := (name, v) :: (env.free name).bindings }

/-- Binds parameters to arguments, one after the other; a missing argument is undefined. -/
def bindParams (env : Env) : List Text → List Value → Env
  | [], _ => env
  | p :: params, args => bindParams (env.bind p (args.head?.getD .undefined)) params args.tail

/-- The parts of a request are bound as well. -/
def ofRequest (r : Request) (now : LocalTime) : Env :=
  (((initial now).bind "url".toList (.string r.url)).bind "host".toList (.string r.host)).bind
    "scheme".toList (.string r.scheme)

theorem get?_free (env : Env) (name other : Text) :
    (env.free name).get? other = if other = name then none else env.get? other := by
  obtain ⟨bindings, now⟩ := env
  simp only [get?, free]
  induction bindings with
  | nil => simp
  | cons binding bindings ih =>
    obtain ⟨k, v⟩ := binding
    by_cases freed : k = name
    · subst freed
      by_cases same : other = k
      · subst same; simpa using ih
      · have : (other == k) = false := by simp [same]
        simp [List.lookup_cons, this, same] at ih ⊢
        exact ih
    · by_cases same : other = k
      · subst same; simp [freed]
      · have : (other == k) = false := by simp [same]
        simp [List.lookup_cons, this, freed] at ih ⊢
        exact ih

theorem get?_bind (env : Env) (name other : Text) (v : Value) :
    (env.bind name v).get? other = if other = name then some v else env.get? other := by
  by_cases same : other = name
  · simp [get?, bind, same]
  · have : (other == name) = false := by simp [same]
    have others := get?_free env name other
    rw [if_neg same] at others ⊢
    simp only [get?, bind, List.lookup_cons, this]
    exact others

end Env
end ProxyRouting
