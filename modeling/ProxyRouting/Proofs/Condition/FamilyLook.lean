import ProxyRouting.Proofs.Condition.Compile

/-!
Conditions about all addresses of a family. A network of length zero contains every address of its family, so the
condition holds of the hosts that name one; its expression asks no more than what the host looks like
(`evalBool_all`). The look is that of every such address, but of other hosts as well: the two answers are the same
exactly when the host looks like an address of the family just if it names one (`evalBool_agrees_iff`).
-/
namespace ProxyRouting
open ProxyRouting.Expr Ip

/-- The text names an address of the family of the network. -/
def Ip.Network.SharesFamily (n : Network) (host : Text) : Prop :=
  ∃ a, Network.addressOfText? host = some a ∧ a.isV4 = n.address.isV4

/-- The text names an address of the other family. -/
def Ip.Network.OtherFamily (n : Network) (host : Text) : Prop :=
  ∃ a, Network.addressOfText? host = some a ∧ a.isV4 ≠ n.address.isV4

/-- The analysis asks whether the host is in the network, and nothing else. -/
inductive Analysis.AsksOnly : Analysis → Network → Prop
  | ip (n : Network) : AsksOnly (.ip n) n
  | bypass {entry : Bypass} {n : Network} (network : entry.network = some n) (schemeless : entry.scheme = none) :
      AsksOnly (.bypass entry) n

/-- A network of length zero contains all addresses of its family. -/
theorem containsHost_all {n : Network} (all : n.length = 0) (host : Text) :
    n.containsHost host = true ↔ n.SharesFamily host := by
  rw [containsHost_iff, all]
  refine exists_congr fun a => and_congr_right fun _ => ?_
  exact and_iff_left fun i low => absurd low (Nat.not_lt_zero i)

/-- An entry with a network asks for its scheme, if it has one, and for the network. -/
theorem Bypass.ofText_network {entry : Text} {n : Network} (network : (Bypass.ofText entry).network = some n) :
    ∃ normalized, Bypass.ofText entry = ⟨(splitScheme entry).1, some n, .any, none, none, normalized⟩ := by
  revert network
  unfold Bypass.ofText
  split
  · exact nofun
  · simp only
    split
    · next n' _ =>
      intro network
      obtain rfl : n' = n := Option.some.inj network
      exact ⟨_, rfl⟩
    · split
      · exact nofun
      · exact nofun

section
variable {c : Condition} {a : Analysis} {n : Network}

/-- Such an analysis answers as its network does, and has its expression. -/
theorem eq_of_asksOnly (analyzed : c.analyze = .ok a) (asks : a.AsksOnly n) :
    a.toExpr = n.toExpr ∧ ∀ r now, a.isMatch r now = n.containsHost r.host := by
  cases asks with
  | ip => exact ⟨rfl, fun _ _ => rfl⟩
  | bypass network schemeless =>
    obtain ⟨pattern, rfl⟩ := pattern_of_analyze analyzed
    obtain ⟨normalized, whole⟩ := Bypass.ofText_network network
    rw [whole] at schemeless ⊢
    have named : (Bypass.splitScheme pattern).1 = none := schemeless
    rw [named]
    refine ⟨rfl, fun r now => ?_⟩
    simp [Analysis.isMatch, Bypass.isMatch]

variable {r : Request}

/-- The expression has the look of the host for its value, whether or not the second function is given. -/
theorem evalBool_all (analyzed : c.analyze = .ok a) (asks : a.AsksOnly n) (all : n.length = 0)
    (fits : n.address.isV4 = true → Text.unitLength r.host ≤ 2 ^ 53) (now : LocalTime) :
    evalBool (Env.ofRequest r now) a.toExpr = .ok (n.looks r.host) ∧
      evalBool ((Env.ofRequest r now).free "isInNetEx".toList) a.toExpr = .ok (n.looks r.host) := by
  have look : a.toExpr = n.familyExpr := by
    rw [(eq_of_asksOnly analyzed asks).1, Network.toExpr]
    simp [all]
  have serves := serves_ofRequest r now
  rw [look]
  exact ⟨evalBool_of_truth fun _ => truth_familyExpr serves fits,
    evalBool_of_truth fun _ => truth_familyExpr (serves_free serves) fits⟩

/-- A condition about all addresses of a family holds of the requests whose host names one, and its expression of
    those whose host looks like one, whether or not the second function for networks is given. The answers are the same
    exactly if the host names an address of the family just when it looks like one; and hosts without brackets that name
    one look like it. Lengths are counted in numbers that are exact up to 2^53, which no text in a machine comes near. -/
theorem evalBool_agrees_iff (analyzed : c.analyze = .ok a) (asks : a.AsksOnly n) (all : n.length = 0)
    (fits : n.address.isV4 = true → Text.unitLength r.host ≤ 2 ^ 53) (now : LocalTime) :
    (evalBool (Env.ofRequest r now) a.toExpr = .ok (n.looks r.host) ∧
        evalBool ((Env.ofRequest r now).free "isInNetEx".toList) a.toExpr = .ok (n.looks r.host)) ∧
      (a.isMatch r now = true ↔ n.SharesFamily r.host) ∧
      (evalBool (Env.ofRequest r now) a.toExpr = .ok (a.isMatch r now) ↔
        (n.looks r.host = true ↔ n.SharesFamily r.host)) ∧
      ('[' ∉ r.host → n.SharesFamily r.host → n.looks r.host = true) := by
  have expr := evalBool_all analyzed asks all fits now
  have answer : a.isMatch r now = true ↔ n.SharesFamily r.host := by
    rw [(eq_of_asksOnly analyzed asks).2, containsHost_all all]
  refine ⟨expr, answer, ?_, ?_⟩
  · rw [expr.1, Except.ok.injEq, ← answer]
    exact Bool.eq_iff_iff
  · rintro unbracketed ⟨a, named, family⟩
    exact looks_of_address unbracketed named family

end

/-- An address of the family. -/
theorem evalBool_agrees_dotted : ∃ a n r,
    (Condition.ip "0.0.0.0".toList 0).analyze = .ok a ∧ a.AsksOnly n ∧ n.length = 0 ∧
    Request.ofUrl? "http://10.0.0.1/".toList = some r ∧ Text.unitLength r.host ≤ 2 ^ 53 ∧
      ∀ now, a.isMatch r now = true ∧ evalBool (Env.ofRequest r now) a.toExpr = .ok (a.isMatch r now) := by
  let n : Network := ⟨.v4 0, 0, by decide⟩
  let r : Request := ⟨"http://10.0.0.1/".toList, "10.0.0.1".toList, "http".toList⟩
  have analyzed : (Condition.ip "0.0.0.0".toList 0).analyze = .ok (.ip n) := rfl
  have made : Request.ofUrl? "http://10.0.0.1/".toList = some r := by decide
  have fits : Text.unitLength r.host ≤ 2 ^ 53 := by decide
  have shares : n.SharesFamily r.host := ⟨.v4 0x0A000001, by decide, rfl⟩
  refine ⟨_, n, r, analyzed, .ip n, rfl, made, fits, fun now => ?_⟩
  obtain ⟨_, answer, agrees, looks⟩ := evalBool_agrees_iff analyzed (.ip n) rfl (fun _ => fits) now
  exact ⟨answer.2 shares, agrees.2 ⟨fun _ => shares, looks (by decide)⟩⟩

/-- A name that ends in a digit looks like an address of IPv4 and is one of no family. -/
theorem evalBool_strays_named : ¬ ∀ (c : Condition) (a : Analysis) (n : Network) (url : Text) (r : Request)
    (now : LocalTime), c.analyze = .ok a → a.AsksOnly n → n.length = 0 → Request.ofUrl? url = some r →
      ¬ n.OtherFamily r.host → evalBool (Env.ofRequest r now) a.toExpr = .ok (a.isMatch r now) := by
  intro all
  let n : Network := ⟨.v4 0, 0, by decide⟩
  let r : Request := ⟨"http://server1/".toList, "server1".toList, "http".toList⟩
  let now : LocalTime := ⟨2024, 1, 7, 0, 0⟩
  have analyzed : (Condition.ip "0.0.0.0".toList 0).analyze = .ok (.ip n) := rfl
  have made : Request.ofUrl? "http://server1/".toList = some r := by decide
  have nameless : Network.addressOfText? r.host = none := by decide
  have foreign : ¬ n.OtherFamily r.host := by
    rintro ⟨a, named, _⟩
    rw [nameless] at named
    cases named
  have claimed := all _ _ n _ r now analyzed (.ip n) rfl made foreign
  rw [(evalBool_all analyzed (.ip n) rfl (fun _ => by decide) now).1] at claimed
  have looks : n.looks r.host = true := by decide
  have answer : (Analysis.ip n).isMatch r now = false := by decide
  rw [looks, answer] at claimed
  cases claimed

end ProxyRouting
