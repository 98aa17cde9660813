import ProxyRouting.Proofs.Expr.Readback

/-!
Constructor calls among other calls. A `new` belongs to the first list of arguments behind it, and the printer puts no
parentheses around a callee with a call of its own: `new (a())()` is printed like `(new a())()`. So the printed text of
any expression is that of the expression where each `new` has taken the first call behind it (`print_rebound`), these
are told apart (`render_eq_iff`), and a constructor call is printed like no call and no access exactly if its callee has
no call for it to take (`construct_distinct_iff`).
-/
namespace ProxyRouting.Expr

/-- What `new` in front of a callee and arguments comes to, by the callee with the `new` inside, if it takes one. -/
def newOf (taken : Option Expr) (callee : Expr) (args : List Expr) : Expr :=
  match taken with
  | some taken => .call taken args
  | none => .construct callee args

/-- The expression where `new` in front of it stands in front of its first call, if it has one that is open to it. -/
def takeCall : Expr → Option Expr
  | .call callee args => some (newOf callee.takeCall callee args)
  | .construct callee args => callee.takeCall.map (.construct · args)
  | .member target property => target.takeCall.map (.member · property)
  | .subscript target index => target.takeCall.map (.subscript · index)
  | _ => none

theorem isSome_takeCall (e : Expr) : e.takeCall.isSome = e.opensCall := by
  fun_induction opensCall e with
  | case1 => rfl
  | case2 callee args ih => rw [takeCall, Option.isSome_map, ih]
  | case3 target property ih => rw [takeCall, Option.isSome_map, ih]
  | case4 target index ih => rw [takeCall, Option.isSome_map, ih]
  | case5 e noCall noConstruct noMember noSubscript =>
    cases e with
    | call callee args => exact absurd rfl (noCall callee args)
    | construct callee args => exact absurd rfl (noConstruct callee args)
    | member target property => exact absurd rfl (noMember target property)
    | subscript target index => exact absurd rfl (noSubscript target index)
    | _ => rfl

theorem takeCall_eq_none {e : Expr} (apart : e.opensCall = false) : e.takeCall = none := by
  rwa [← isSome_takeCall, Option.isSome_eq_false_iff, Option.isNone_iff_eq_none] at apart

theorem exists_takeCall {e : Expr} (opens : e.opensCall = true) : ∃ taken, e.takeCall = some taken :=
  Option.isSome_iff_exists.1 ((isSome_takeCall e).trans opens)

theorem opensCall_newOf (callee : Expr) (args : List Expr) :
    (newOf callee.takeCall callee args).opensCall = callee.opensCall := by
  rw [← isSome_takeCall callee]
  cases took : callee.takeCall with
  | none => rw [newOf, opensCall, ← isSome_takeCall, took]
  | some taken => rfl

theorem isNumber_newOf (taken : Option Expr) (callee : Expr) (args : List Expr) :
    (newOf taken callee args).isNumber = false := by
  cases taken <;> rfl

/-- An expression with an open call is no number, and neither is what becomes of it. -/
theorem isNumber_of_takeCall {e taken : Expr} (took : e.takeCall = some taken) :
    e.isNumber = false ∧ taken.isNumber = false := by
  unfold takeCall at took
  split at took
  · cases took
    exact ⟨rfl, isNumber_newOf _ _ _⟩
  · obtain ⟨_, _, rfl⟩ := Option.map_eq_some_iff.1 took
    exact ⟨rfl, rfl⟩
  · obtain ⟨_, _, rfl⟩ := Option.map_eq_some_iff.1 took
    exact ⟨rfl, rfl⟩
  · obtain ⟨_, _, rfl⟩ := Option.map_eq_some_iff.1 took
    exact ⟨rfl, rfl⟩
  · cases took

/-- A constructor call is printed alike, whichever arguments its `new` belongs to. -/
theorem print_newOf {callee : Expr} {args : List Expr}
    (ahead : ∀ taken, callee.takeCall = some taken →
      print callPrecedence taken = "new ".toList ++ print callPrecedence callee) (outer : Nat) :
    print outer (newOf callee.takeCall callee args) = print outer (.construct callee args) := by
  cases took : callee.takeCall with
  | none => rfl
  | some taken => simp only [newOf, print, ahead taken took]

/-- The `new` is printed in front all the same. -/
theorem print_takeCall {e taken : Expr} (took : e.takeCall = some taken) :
    print callPrecedence taken = "new ".toList ++ print callPrecedence e := by
  have bare (t : Text) : enclose (callPrecedence < callPrecedence) t = t := rfl
  -- along the callees and objects: nothing that is printed ahead of the first call encloses it
  fun_induction takeCall e generalizing taken with
  | case1 callee args ih =>
    cases took
    rw [print_newOf (fun taken => ih)]
    simp only [print, bare, List.append_assoc]
  | case2 callee args ih =>
    obtain ⟨inside, inner, rfl⟩ := Option.map_eq_some_iff.1 took
    simp only [print, bare, ih inner, List.append_assoc]
  | case3 target property ih =>
    obtain ⟨inside, inner, rfl⟩ := Option.map_eq_some_iff.1 took
    obtain ⟨noNumber, noNumber'⟩ := isNumber_of_takeCall inner
    simp [print, noNumber, noNumber', enclose, ih inner]
  | case4 target index ih =>
    obtain ⟨inside, inner, rfl⟩ := Option.map_eq_some_iff.1 took
    obtain ⟨noNumber, noNumber'⟩ := isNumber_of_takeCall inner
    simp [print, noNumber, noNumber', enclose, ih inner]
  | case5 e => cases took

mutual

/-- The expression where every `new` has taken the first call behind it. -/
def rebound : Expr → Expr
  | .bool b => .bool b
  | .number n => .number n
  | .string t => .string t
  | .regex source => .regex source
  | .ident name => .ident name
  | .binary op left right => .binary op left.rebound right.rebound
  | .unary op operand => .unary op operand.rebound
  | .call callee args => .call callee.rebound (reboundArgs args)
  | .construct callee args => newOf callee.rebound.takeCall callee.rebound (reboundArgs args)
  | .member target property => .member target.rebound property
  | .subscript target index => .subscript target.rebound index.rebound
  | .conditional test consequent alternative => .conditional test.rebound consequent.rebound alternative.rebound
  | .function params body => .function params body.rebound
  | .commented comment e => .commented comment e.rebound

/-- The arguments where every `new` has taken the first call behind it. -/
def reboundArgs : List Expr → List Expr
  | [] => []
  | e :: es => e.rebound :: reboundArgs es

end

theorem reboundArgs_eq (es : List Expr) : reboundArgs es = es.map rebound := by
  induction es with
  | nil => rfl
  | cons e es ih => rw [reboundArgs, ih, List.map_cons]

theorem isNumber_rebound : ∀ e : Expr, e.rebound.isNumber = e.isNumber
  | .commented _ e => isNumber_rebound e
  | .construct callee args => by
    rw [rebound, isNumber_newOf]
    rfl
  | .bool _ => rfl
  | .number _ => rfl
  | .string _ => rfl
  | .regex _ => rfl
  | .ident _ => rfl
  | .binary _ _ _ => rfl
  | .unary _ _ => rfl
  | .call _ _ => rfl
  | .member _ _ => rfl
  | .subscript _ _ => rfl
  | .conditional _ _ _ => rfl
  | .function _ _ => rfl

mutual

/-- Parentheses being where they are, the text of an expression does not tell which call a `new` belongs to. -/
theorem print_rebound : ∀ (e : Expr) (outer : Nat), print outer e.rebound = print outer e
  | .bool _, _ => rfl
  | .number _, _ => rfl
  | .string _, _ => rfl
  | .regex _, _ => rfl
  | .ident _, _ => rfl
  | .binary _ left right, outer => by simp only [rebound, print, print_rebound left, print_rebound right]
  | .unary _ operand, outer => by simp only [rebound, print, print_rebound operand]
  | .call callee args, outer => by simp only [rebound, print, print_rebound callee, printArgs_rebound args]
  | .construct callee args, outer => by
    rw [rebound, print_newOf fun _ => print_takeCall]
    simp only [print, print_rebound callee, printArgs_rebound args]
  | .member target _, outer => by simp only [rebound, print, print_rebound target, isNumber_rebound]
  | .subscript target index, outer => by
    simp only [rebound, print, print_rebound target, print_rebound index, isNumber_rebound]
  | .conditional test consequent alternative, outer => by
    simp only [rebound, print, print_rebound test, print_rebound consequent, print_rebound alternative]
  | .function _ body, outer => by simp only [rebound, print, print_rebound body]
  | .commented _ e, outer => by simp only [rebound, print, print_rebound e]

theorem printArgs_rebound : ∀ es : List Expr, printArgs (reboundArgs es) = printArgs es
  | [] => rfl
  | [e] => by simp only [reboundArgs, printArgs, print_rebound e]
  | e :: f :: es => by
    have rest := printArgs_rebound (f :: es)
    simp only [reboundArgs] at rest
    simp only [reboundArgs, printArgs, print_rebound e, rest]

end

/-- An expression is a call or an access, as far as its root is concerned. -/
def IsAccess : Expr → Prop
  | .call _ _ => True
  | .member _ _ => True
  | .subscript _ _ => True
  | _ => False

theorem opensCall_rebound : ∀ e : Expr, e.rebound.opensCall = e.opensCall
  | .bool _ => rfl
  | .number _ => rfl
  | .string _ => rfl
  | .regex _ => rfl
  | .ident _ => rfl
  | .binary _ _ _ => rfl
  | .unary _ _ => rfl
  | .call _ _ => rfl
  | .construct callee _ => (opensCall_newOf callee.rebound _).trans (opensCall_rebound callee)
  | .member target _ => opensCall_rebound target
  | .subscript target _ => opensCall_rebound target
  | .conditional _ _ _ => rfl
  | .function _ _ => rfl
  | .commented _ _ => rfl

/-- A constructor call remains one if its callee has no call that the `new` could take. -/
theorem rebound_construct {callee : Expr} (apart : callee.opensCall = false) (args : List Expr) :
    (Expr.construct callee args).rebound = .construct callee.rebound (reboundArgs args) := by
  rw [rebound, takeCall_eq_none ((opensCall_rebound callee).trans apart), newOf]

theorem IsAccess.rebound {e : Expr} (access : e.IsAccess) : e.rebound.IsAccess := by
  cases e with
  | call _ _ => trivial
  | member _ _ => trivial
  | subscript _ _ => trivial
  | _ => cases access

/-- Expressions without comments that are spelled as `Plain` has it, with any callees of constructors. -/
def Lexical (e : Expr) : Prop := Spelled (fun _ => True) e

section
variable {allowed : Expr → Prop}

theorem Spelled.newOf {callee : Expr} {args : List Expr} (apart : ∀ c : Expr, c.opensCall = false → allowed c)
    (inside : ∀ taken, callee.takeCall = some taken → Spelled allowed taken) (spelled : Spelled allowed callee)
    (spelledArgs : ∀ e ∈ args, Spelled allowed e) : Spelled allowed (newOf callee.takeCall callee args) := by
  cases took : callee.takeCall with
  | none =>
    have closed : callee.opensCall = false := by rw [← isSome_takeCall, took]; rfl
    exact .construct callee args (apart callee closed) spelled spelledArgs
  | some taken => exact .call taken args (inside taken took) spelledArgs

/-- Taking a call does not change how an expression is spelled. -/
theorem Spelled.takeCall {e taken : Expr} (apart : ∀ c : Expr, c.opensCall = false → allowed c)
    (kept : ∀ c c' : Expr, allowed c → c.takeCall = some c' → allowed c') (spelled : Spelled allowed e)
    (took : e.takeCall = some taken) : Spelled allowed taken := by
  induction spelled generalizing taken with
  | call callee args spelled spelledArgs ih _ =>
    cases took
    exact .newOf apart (fun _ => ih) spelled spelledArgs
  | construct callee args isAllowed spelled spelledArgs ih _ =>
    obtain ⟨inside, inner, rfl⟩ := Option.map_eq_some_iff.1 took
    exact .construct inside args (kept callee inside isAllowed inner) (ih inner) spelledArgs
  | member target property spelled isName ih =>
    obtain ⟨inside, inner, rfl⟩ := Option.map_eq_some_iff.1 took
    exact .member inside property (ih inner) isName
  | subscript target index spelled spelledIndex ih _ =>
    obtain ⟨inside, inner, rfl⟩ := Option.map_eq_some_iff.1 took
    exact .subscript inside index (ih inner) spelledIndex
  | _ => cases took

end

theorem Bound.takeCall {e taken : Expr} (bound : Bound e) (took : e.takeCall = some taken) : Bound taken := by
  refine Spelled.takeCall (fun _ => id) (fun c c' apart took => ?_) bound took
  rw [takeCall_eq_none apart] at took
  cases took

theorem Lexical.bound_rebound {e : Expr} (lexical : Lexical e) : Bound e.rebound := by
  have args {es : List Expr} (bound : ∀ e ∈ es, Bound e.rebound) : ∀ e ∈ reboundArgs es, Bound e := by
    rw [reboundArgs_eq]
    exact List.forall_mem_map.2 bound
  induction lexical with
  | bool b => exact .bool b
  | number n => exact .number n
  | string t => exact .string t
  | regex source nonempty closed => exact .regex source nonempty closed
  | ident name isVariable => exact .ident name isVariable
  | binary op left right _ _ boundLeft boundRight => exact .binary op _ _ boundLeft boundRight
  | unary op operand _ bound => exact .unary op _ bound
  | call callee es _ _ bound boundArgs => exact .call _ _ bound (args boundArgs)
  | construct callee es _ _ _ bound boundArgs =>
    exact .newOf (fun _ => id) (fun _ => bound.takeCall) bound (args boundArgs)
  | member target property _ isName bound => exact .member _ property bound isName
  | subscript target index _ _ bound boundIndex => exact .subscript _ _ bound boundIndex
  | conditional test consequent alternative _ _ _ bound boundThen boundElse =>
    exact .conditional _ _ _ bound boundThen boundElse
  | function params body areVariables _ bound => exact .function params _ areVariables bound

/-- Two expressions are printed alike just if they are the same once every `new` has taken the first call behind it. -/
theorem render_eq_iff {a b : Expr} (lexical : Lexical a) (lexical' : Lexical b) :
    render a = render b ↔ a.rebound = b.rebound := by
  have same (e : Expr) : render e.rebound = render e := print_rebound e 0
  constructor
  · intro alike
    have read := readExpr_bound lexical.bound_rebound
    rw [same, alike, ← same b, readExpr_bound lexical'.bound_rebound] at read
    exact (Prod.mk.inj (Option.some.inj read)).1.symm
  · intro alike
    rw [← same a, alike, same b]

/-- A constructor call is printed like no call, no member and no subscript exactly if its callee has no call that the
    `new` could take. -/
theorem construct_distinct_iff {callee : Expr} {args : List Expr} (lexical : Lexical (.construct callee args)) :
    (∀ e : Expr, Lexical e → e.IsAccess → render (.construct callee args) ≠ render e) ↔ callee.opensCall = false := by
  constructor
  · intro distinct
    cases opens : callee.opensCall with
    | false => rfl
    | true =>
      obtain ⟨taken, took⟩ := exists_takeCall opens
      cases lexical with
      | construct _ _ _ spelled spelledArgs =>
        have spelledTaken := Spelled.takeCall (fun _ _ => trivial) (fun _ _ _ _ => trivial) spelled took
        refine absurd ?_ (distinct (.call taken args) (.call taken args spelledTaken spelledArgs) trivial)
        rw [render, ← print_newOf fun _ => print_takeCall, took]
        rfl
  · intro apart e lexicalE access alike
    have same := (render_eq_iff lexical lexicalE).1 alike
    have accessRebound := access.rebound
    rw [← same, rebound_construct apart] at accessRebound
    exact accessRebound

theorem lexical_name : Lexical (name "a") := by
  refine .ident _ ⟨⟨by decide, Text.forall_mem_of_all (by decide), by decide⟩, by decide⟩

/-- A constructor that is taken from an object is called by `new` and not by what is taken. -/
theorem construct_distinct_iff_member :
    Lexical (.construct (.member (name "a") "b".toList) []) ∧
    render (.construct (.member (name "a") "b".toList) []) ≠ render (.member (.construct (name "a") []) "b".toList) := by
  have isName : IsName "b".toList := ⟨by decide, Text.forall_mem_of_all (by decide), by decide⟩
  have lexical : Lexical (.construct (.member (name "a") "b".toList) []) :=
    .construct _ _ trivial (.member _ _ lexical_name isName) (by simp)
  have lexical' : Lexical (.member (.construct (name "a") []) "b".toList) :=
    .member _ _ (.construct _ _ trivial lexical_name (by simp)) isName
  exact ⟨lexical, (construct_distinct_iff lexical).2 rfl _ lexical' trivial⟩

/-- The `new` of a called callee takes its call. -/
theorem construct_indistinct :
    Lexical (.construct (.call (name "a") []) []) ∧ Lexical (.call (.construct (name "a") []) []) ∧
    (Expr.call (.construct (name "a") []) []).IsAccess ∧
    render (.construct (.call (name "a") []) []) = "new a()()".toList ∧
    render (.call (.construct (name "a") []) []) = "new a()()".toList :=
  ⟨.construct _ _ trivial (.call _ _ lexical_name (by simp)) (by simp),
    .call _ _ (.construct _ _ trivial lexical_name (by simp)) (by simp), trivial, by decide, by decide⟩

end ProxyRouting.Expr
