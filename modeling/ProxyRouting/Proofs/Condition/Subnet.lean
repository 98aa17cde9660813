import ProxyRouting.Condition.Subnet
import ProxyRouting.Proofs.Expr.Strings
import ProxyRouting.Proofs.Ip.Membership
import ProxyRouting.Proofs.Ip.Shape

/-!
Networks as expressions. The given functions ask of the host what the network itself asks, whether the network
is spelled with a mask or with a length, and that is whether the host names an address with the leading bits of the
network (`subnet_tests_agree`). Whatever host names an address of the network looks like one of its family, so the
expression of a network that is not of length zero agrees with it.
-/
namespace ProxyRouting
open ProxyRouting.Expr Ip

theorem isInNet_mask (n : Network) (host : Text) :
    Value.isInNet host n.address.toText n.mask.toText = n.containsHost host := by
  simp only [Value.isInNet, addressOfText?_toText, Network.containsHost]
  cases Network.addressOfText? host with
  | none => rfl
  | some a => simp [isV4_mask, maskLength?_mask, Network.of?, n.length_le]

theorem isInNetEx_toText (n : Network) (host : Text) : Value.isInNetEx host n.toText = n.containsHost host := by
  simp only [Value.isInNetEx, network_ofText?_toText, Network.containsHost]
  cases Network.addressOfText? host <;> rfl

/-- A host is in a network if it names an address of the family with the leading bits of the network. -/
theorem containsHost_iff (n : Network) (host : Text) : n.containsHost host = true ↔
    ∃ a, Network.addressOfText? host = some a ∧ a.isV4 = n.address.isV4 ∧ ∀ i < n.length, a.bit i = n.address.bit i := by
  rw [Network.containsHost, Option.any_eq_true]
  simp only [Network.contains_iff]

/-- A network asked itself, by its mask and by its length gives one answer: whether the host names an address of
    the family whose leading bits, as many as the length says, are those of the address of the network. -/
theorem subnet_tests_agree (n : Network) (host : Text) :
    Value.isInNet host n.address.toText n.mask.toText = n.containsHost host ∧
      Value.isInNetEx host n.toText = n.containsHost host ∧
      (n.containsHost host = true ↔ ∃ a, Network.addressOfText? host = some a ∧ a.isV4 = n.address.isV4 ∧
        ∀ i < n.length, a.bit i = n.address.bit i) :=
  ⟨isInNet_mask n host, isInNetEx_toText n host, containsHost_iff n host⟩

section
variable {call : Env → Expr → Except EvalError Value} {env : Env} {r : Request} {now : LocalTime}

theorem evalArgs_two {e f : Expr} {v w : Value} (first : evalWith call env e = .ok v) (second : evalWith call env f = .ok w) :
    evalArgs call env [e, f] = .ok [v, w] := by
  simp only [evalArgs, first, second, bind, Except.bind]

theorem truth_byMask (serves : env.Serves r now) (n : Network) :
    Truth call env (.call (.name "isInNet") [.name "host", .string n.address.toText, .string n.mask.toText])
      (n.containsHost r.host) := by
  have args : evalArgs call env [.name "host", .string n.address.toText, .string n.mask.toText] =
      .ok [.string r.host, .string n.address.toText, .string n.mask.toText] := by
    simp only [evalArgs, evalWith_name serves.host, evalWith_string, bind, Except.bind]
  exact ⟨_, evalWith_call (evalWith_name serves.isInNet) args rfl, isInNet_mask n r.host⟩

theorem truth_byLength (serves : env.Serves r now) (bound : env.get? "isInNetEx".toList = some (.builtin .isInNetEx))
    (n : Network) : Truth call env (.call (.name "isInNetEx") [.name "host", .string n.toText]) (n.containsHost r.host) := by
  have spelled : evalWith call env (.string n.toText) = .ok (.string n.toText) := evalWith_string n.toText
  have args := evalArgs_two (evalWith_name serves.host) spelled
  exact ⟨_, evalWith_call (evalWith_name bound) args rfl, isInNetEx_toText n r.host⟩

/-- Whether or not the second function is given, the answer is that of the network. -/
theorem truth_known (serves : env.Serves r now) (n : Network) :
    Truth call env (.conditional
        (.binary .strictEq (.unary .typeOf (.name "isInNetEx")) (.string "function".toList))
        (.call (.name "isInNetEx") [.name "host", .string n.toText])
        (.call (.name "isInNet") [.name "host", .string n.address.toText, .string n.mask.toText]))
      (n.containsHost r.host) := by
  have kind : evalWith call env (.unary .typeOf (.name "isInNetEx")) =
      .ok (.string ((env.get? "isInNetEx".toList).getD .undefined).typeOf) := by
    simp only [name, evalWith, uncommented]
  refine truth_conditional ⟨_, evalWith_binary .strictEq kind (evalWith_string _), rfl⟩ (fun given => ?_)
    fun _ => truth_byMask serves n
  rcases serves.isInNetEx with bound | free
  · exact truth_byLength serves bound n
  · rw [free] at given
    cases given

/-- The host looks like an address of the family: it ends in a digit or in white space, or it has a colon in it. -/
def Ip.Network.looks (n : Network) (host : Text) : Bool :=
  if n.address.isV4 then host.getLast?.any fun c => c.isDigit || Text.isBlank c else Text.contains [':'] host

/-- An address looks like one of its family, unless there are brackets around it. -/
theorem looks_of_address {n : Network} {host : Text} {a : Address} (unbracketed : '[' ∉ host)
    (named : Network.addressOfText? host = some a) (family : a.isV4 = n.address.isV4) : n.looks host = true := by
  unfold Ip.Network.looks
  rw [← family]
  cases a with
  | v4 bits =>
    obtain ⟨c, last, good⟩ := ends_of_v4 named unbracketed
    exact (Option.any_eq_true _ _).2 ⟨c, last, good⟩
  | v6 bits => exact Text.contains_single.2 (colon_of_v6 named)

theorem looks_of_containsHost {n : Network} {host : Text} (unbracketed : '[' ∉ host)
    (within : n.containsHost host = true) : n.looks host = true := by
  obtain ⟨a, named, family, -⟩ := (containsHost_iff n host).1 within
  exact looks_of_address unbracketed named family

/-- The last unit of a text, read as a number, is not below zero. -/
def lastUnit (t : Text) : Bool :=
  ((Text.units t).getLast?.elim Value.undefined fun unit => .string [Text.ofUnit unit]).applyOp .ge
    (.number (Binary64.ofInt 0)) |>.truthy

theorem truth_lastUnit {subject : Expr} {t : Text} (value : evalWith call env subject = .ok (.string t))
    (fits : Text.unitLength t ≤ Binary64.exactBound) :
    Truth call env (.binary .ge (.subscript subject (.binary .sub (.member subject "length".toList) (.number 1)))
      (.number 0)) (lastUnit t) := by
  obtain ⟨y, one, stands⟩ : Counts call env (.number 1) 1 := counts_number (by decide)
  have known (t : Text) : (Value.string t).member "length".toList = .ok (.ofNat (Text.unitLength t)) := rfl
  have length : evalWith call env (.member subject "length".toList) = .ok (.ofNat (Text.unitLength t)) :=
    evalWith_member value (known t)
  have index : evalWith call env (.binary .sub (.member subject "length".toList) (.number 1)) =
      .ok (.number ((Binary64.ofNat (Text.unitLength t)).sub y)) := by
    rw [evalWith_binary .sub length one, Value.applyOp, Value.ofNat, Value.toNumber, Value.toNumber]
  have last : (Value.index? (.number ((Binary64.ofNat (Text.unitLength t)).sub y))).bind (fun i => (Text.units t)[i]?) =
      (Text.units t).getLast? := by
    rw [List.getLast?_eq_getElem?, ← Text.unitLength]
    cases size : Text.unitLength t with
    | zero =>
      have empty : Text.units t = [] := List.length_eq_zero_iff.1 size
      simp [empty]
    | succ k =>
      rw [size] at fits
      have exact : ((Binary64.ofNat (k + 1)).sub y).Stands k := by
        have difference := Binary64.stands_sub (Binary64.stands_ofNat fits) stands (by omega)
        rwa [Int.natCast_add, Int.natCast_one, Int.add_sub_cancel] at difference
      rw [Value.index?, Value.toNumber, Binary64.toInt?_stands exact]
      rfl
  refine ⟨_, evalWith_binary .ge (evalWith_subscript value index rfl) (by rw [evalWith]), ?_⟩
  rw [lastUnit, last]

theorem toNat_of_end {c : Char} (ends : (c.isDigit || Text.isBlank c) = true) : c.toNat ≤ 0x3000 := by
  rcases Bool.or_eq_true_iff.1 ends with digit | blank
  · have := toNat_of_isDigit digit
    omega
  · simp only [Text.isBlank, Bool.or_eq_true, Bool.and_eq_true, decide_eq_true_eq, beq_iff_eq] at blank
    omega

/-- A digit is a number, white space counts as zero, and no other character is a number. -/
theorem notNegative_iff (c : Char) :
    ((Value.string [c]).applyOp .ge (.number (Binary64.ofInt 0))).truthy = (c.isDigit || Text.isBlank c) := by
  cases digit : c.isDigit with
  | true =>
    obtain ⟨least, most⟩ := toNat_of_isDigit digit
    have digits : ∀ n < 58, 48 ≤ n →
        ((Value.string [Char.ofNat n]).applyOp .ge (.number (Binary64.ofInt 0))).truthy = true := by decide +kernel
    have here := digits c.toNat (by omega) least
    rwa [Char.ofNat_toNat] at here
  | false =>
    have order : ((Value.string [c]).applyOp .ge (.number (Binary64.ofInt 0))).truthy =
        ((Binary64.compare? (Value.string [c]).toNumber (Binary64.ofInt 0)).any Ordering.isGE) := rfl
    rw [order, Bool.false_or]
    cases blank : Text.isBlank c with
    | true =>
      have zero : (Value.string [c]).toNumber = .finite false 0 := by
        simp [Value.toNumber, Value.textToNumber, Text.trim, Text.trimStart, Text.trimEnd, blank]
      have same := Binary64.compare?_stands (⟨false, 0, rfl, (Int.zero_mul _).symm⟩ : (Binary64.finite false 0).Stands 0)
        (Binary64.stands_ofInt (by decide : (0 : Int).natAbs ≤ Binary64.exactBound))
      rw [zero, same]
      rfl
    | false =>
      have trimmed : Text.trim [c] = [c] := by simp [Text.trim, Text.trimStart, Text.trimEnd, blank]
      have unread : (Value.string [c]).toNumber = .nan := by
        simp only [Value.toNumber, Value.textToNumber, trimmed]
        by_cases sign : Value.isDecimalChar c = true
        · -- a point, a sign or an exponent alone is no decimal
          have cases : c = '.' ∨ c = 'e' ∨ c = 'E' ∨ c = '+' ∨ c = '-' := by
            simpa [Value.isDecimalChar, digit] using sign
          rcases cases with rfl | rfl | rfl | rfl | rfl <;> rfl
        · simp [sign]
      rw [unread]
      rfl

/-- The last unit of a text is its last character or, of one beyond the basic plane, a half that is no number. -/
theorem lastUnit_eq (t : Text) : lastUnit t = t.getLast?.any fun c => c.isDigit || Text.isBlank c := by
  rcases List.eq_nil_or_concat t with rfl | ⟨init, c, rfl⟩
  · rfl
  · have split : Text.units (init ++ [c]) = Text.units init ++ charUnits c := by simp [Text.units]
    rw [List.concat_eq_append, lastUnit, split, List.getLast?_append, List.getLast?_append]
    by_cases low : c.toNat < 0x10000
    · have single : charUnits c = [c.toNat] := if_pos low
      have whole : Text.ofUnit c.toNat = c := by
        have valid : c.toNat < 0xD800 ∨ 0xDFFF < c.toNat ∧ c.toNat < 0x110000 := c.valid
        rw [Text.ofUnit, if_neg (by omega), Char.ofNat_toNat]
      rw [single]
      simp [whole, notNegative_iff]
    · have pair : charUnits c = [0xD800 + (c.toNat - 0x10000) / 0x400, 0xDC00 + (c.toNat - 0x10000) % 0x400] := if_neg low
      have half : Text.ofUnit (0xDC00 + (c.toNat - 0x10000) % 0x400) = '\uFFFD' := if_pos (by omega)
      have other : (c.isDigit || Text.isBlank c) = false := by
        refine Bool.eq_false_iff.2 fun ends => ?_
        have := toNat_of_end ends
        omega
      have replaced : ('\uFFFD'.isDigit || Text.isBlank '\uFFFD') = false := by decide
      rw [pair]
      simp only [List.getLast?_cons_cons, List.getLast?_singleton, Option.some_or, Option.elim_some, Option.any_some, half,
        notNegative_iff, other, replaced]

/-- The expression about the look of the host has its value. -/
theorem truth_familyExpr (serves : env.Serves r now) {n : Network}
    (fits : n.address.isV4 = true → Text.unitLength r.host ≤ Binary64.exactBound) :
    Truth call env n.familyExpr (n.looks r.host) := by
  have host : evalWith call env (.name "host") = .ok (.string r.host) := evalWith_name serves.host
  unfold Network.familyExpr Network.looks
  simp only
  split
  · next v4 =>
    rw [← lastUnit_eq]
    exact truth_lastUnit host (fits v4)
  · exact truth_found host [':']

/-- The expression of a network of a length other than zero holds of the hosts in the network. -/
theorem truth_networkExpr (serves : env.Serves r now) (unbracketed : '[' ∉ r.host) {n : Network}
    (fits : n.address.isV4 = true → Text.unitLength r.host ≤ Binary64.exactBound) (positive : n.length ≠ 0) :
    Truth call env n.toExpr (n.containsHost r.host) := by
  have family : Truth call env n.familyExpr (n.looks r.host) := truth_familyExpr serves fits
  have both : n.containsHost r.host = (n.looks r.host && n.containsHost r.host) := by
    cases within : n.containsHost r.host with
    | false => simp
    | true => simp [looks_of_containsHost unbracketed within]
  unfold Network.toExpr
  simp only [positive, ↓reduceIte]
  rw [both]
  split
  · exact truth_and family (truth_byMask serves n)
  · exact truth_and family (truth_known serves n)

end
end ProxyRouting
