import ProxyRouting.Condition.Analysis
import ProxyRouting.Proofs.Condition.Bypass
import ProxyRouting.Proofs.Condition.Range

/-!
The expression of a condition answers as its analysis does (`evalBool_toExpr`), for every request that a URL can
make and at every time, and whether or not a script is given the function that knows IPv6. The exceptions are
networks of length zero, whose expression asks only what the host looks like, and hosts that such a look
mistakes: one in brackets, or one too long for its last character to be counted.
-/
namespace ProxyRouting
open ProxyRouting.Expr

/-- The network that an analysis asks about, if it does. -/
def Analysis.network? : Analysis → Option Ip.Network
  | .ip network => some network
  | .bypass entry => entry.network
  | _ => none

section
variable {inner : Env → Expr → Except EvalError Value} {env : Env} {r : Request} {now : LocalTime}

theorem truth_keywordExpr {call : Env → Expr → Except EvalError Value} (serves : env.Serves r now) (keyword : Text) :
    Truth call env (Analysis.keywordExpr keyword) (Analysis.keywordMatch keyword r) :=
  truth_and (truth_sameString serves.scheme _) (truth_found (evalWith_name serves.url) keyword)

theorem pattern_of_analyze {c : Condition} {entry : Bypass} (analyzed : c.analyze = .ok (.bypass entry)) :
    ∃ pattern, entry = Bypass.ofText pattern := by
  cases c with
  | bypass pattern =>
    cases analyzed
    exact ⟨pattern, rfl⟩
  | ip address length =>
    simp only [Condition.analyze] at analyzed
    cases read : Ip.Network.ofFields address length <;> rw [read] at analyzed <;> cases analyzed
  | _ => cases analyzed

/-- The expression of an analysis counts as what the analysis answers. -/
theorem truth_analysis {c : Condition} {a : Analysis} (analyzed : c.analyze = .ok a) {url : Text}
    (made : Request.ofUrl? url = some r) (serves : env.Serves r now) (unbracketed : '[' ∉ r.host)
    (few : r.host.count '.' < 2 ^ 32) (positive : ∀ n ∈ a.network?, n.length ≠ 0)
    (fits : ∀ n ∈ a.network?, n.address.isV4 = true → Text.unitLength r.host ≤ Binary64.exactBound) :
    Truth (evalWith inner) env a.toExpr (a.isMatch r now) := by
  cases a with
  | constant b => exact truth_bool b
  | url search => exact truth_search search serves.url
  | host search => exact truth_search search serves.host
  | bypass entry =>
    obtain ⟨pattern, rfl⟩ := pattern_of_analyze analyzed
    exact truth_bypassExpr made serves unbracketed pattern positive fits
  | keyword t => exact truth_keywordExpr serves t
  | ip network => exact truth_networkExpr serves unbracketed (fits network rfl) (positive network rfl)
  | hostLevels min max => exact truth_levelsExpr serves few min max
  | weekday rule => exact truth_weekdayExpr serves rule
  | time first last => exact truth_hourExpr serves first last

end

/-- The expression of a condition that can be analyzed has a truth value for every request, the answer of the
    analysis, even if the second function for networks is not given. Lengths are counted in numbers that are exact
    up to 2^53, which no text in a machine comes near. -/
theorem evalBool_toExpr {c : Condition} {a : Analysis} (analyzed : c.analyze = .ok a) {url : Text} {r : Request}
    (made : Request.ofUrl? url = some r) (unbracketed : '[' ∉ r.host) (few : r.host.count '.' < 2 ^ 32)
    (positive : ∀ n ∈ a.network?, n.length ≠ 0)
    (fits : ∀ n ∈ a.network?, n.address.isV4 = true → Text.unitLength r.host ≤ 2 ^ 53) (now : LocalTime) :
    evalBool (Env.ofRequest r now) a.toExpr = .ok (a.isMatch r now) ∧
      evalBool ((Env.ofRequest r now).free "isInNetEx".toList) a.toExpr = .ok (a.isMatch r now) := by
  have serves := serves_ofRequest r now
  exact ⟨evalBool_of_truth fun _ => truth_analysis analyzed made serves unbracketed few positive fits,
    evalBool_of_truth fun _ => truth_analysis analyzed made (serves_free serves) unbracketed few positive fits⟩

theorem evalBool_toExpr_subnet : ∃ a r, (Condition.ip "10.0.0.0".toList 8).analyze = .ok a ∧
    Request.ofUrl? "http://10.1.2.3/".toList = some r ∧ '[' ∉ r.host ∧ r.host.count '.' < 2 ^ 32 ∧
      ∀ now, a.isMatch r now = true ∧ evalBool (Env.ofRequest r now) a.toExpr = .ok (a.isMatch r now) ∧
        evalBool ((Env.ofRequest r now).free "isInNetEx".toList) a.toExpr = .ok (a.isMatch r now) := by
  let network : Ip.Network := ⟨.v4 0x0A000000, 8, by decide⟩
  let r : Request := ⟨"http://10.1.2.3/".toList, "10.1.2.3".toList, "http".toList⟩
  have analyzed : (Condition.ip "10.0.0.0".toList 8).analyze = .ok (.ip network) := rfl
  have made : Request.ofUrl? "http://10.1.2.3/".toList = some r := rfl
  have unbracketed : '[' ∉ r.host := by decide
  have few : r.host.count '.' < 2 ^ 32 := by decide
  have positive : ∀ n ∈ (Analysis.ip network).network?, n.length ≠ 0 := by
    rintro n ⟨⟩
    decide
  have fits : ∀ n ∈ (Analysis.ip network).network?, n.address.isV4 = true → Text.unitLength r.host ≤ 2 ^ 53 := by
    rintro n ⟨⟩ _
    decide
  have inside : network.containsHost r.host = true := by decide +kernel
  refine ⟨_, _, analyzed, made, unbracketed, few, fun now => ⟨inside, ?_⟩⟩
  exact evalBool_toExpr analyzed made unbracketed few positive fits now

end ProxyRouting
