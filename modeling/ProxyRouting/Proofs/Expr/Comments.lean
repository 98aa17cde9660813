import ProxyRouting.Proofs.Expr.Literals
import ProxyRouting.Expr.Eval

/-!
Comments mean nothing. Where neither an expression nor the functions that its names stand for have comments any more,
it has the value it had before, without comments, or fails as it did (`evalWith_stripped`). For no operation looks at
the body of a function, which a call only evaluates, so what holds of the expression at hand holds of any depth of
calls (`evalWithin_stripped`).
-/
namespace ProxyRouting
open ProxyRouting.Expr

/-- The literal is a comment. -/
def Literal.isComment : Literal → Bool
  | .comment _ => true
  | _ => false

namespace Expr

mutual

/-- The expression without the comments in it. -/
def stripped : Expr → Expr
  | .bool b => .bool b
  | .number n => .number n
  | .string t => .string t
  | .regex source => .regex source
  | .ident name => .ident name
  | .binary op left right => .binary op left.stripped right.stripped
  | .unary op operand => .unary op operand.stripped
  | .call callee args => .call callee.stripped (strippedArgs args)
  | .construct callee args => .construct callee.stripped (strippedArgs args)
  | .member target property => .member target.stripped property
  | .subscript target index => .subscript target.stripped index.stripped
  | .conditional test consequent alternative => .conditional test.stripped consequent.stripped alternative.stripped
  | .function params body => .function params body.stripped
  | .commented _ e => e.stripped

/-- The arguments without the comments in them. -/
def strippedArgs : List Expr → List Expr
  | [] => []
  | e :: es => e.stripped :: strippedArgs es

end

mutual

/-- What is left of the literals and comments of an expression are its literals. -/
theorem literals_stripped : ∀ e : Expr, e.stripped.literals = e.literals.filter (!·.isComment)
  | .bool _ => rfl
  | .number _ => rfl
  | .string _ => rfl
  | .regex _ => rfl
  | .ident _ => rfl
  | .binary _ left right => by
    simp only [stripped, literals, literals_stripped left, literals_stripped right, List.filter_append]
  | .unary _ operand => by simp only [stripped, literals, literals_stripped operand]
  | .call callee args => by
    simp only [stripped, literals, literals_stripped callee, literalsOfArgs_stripped args, List.filter_append]
  | .construct callee args => by
    simp only [stripped, literals, literals_stripped callee, literalsOfArgs_stripped args, List.filter_append]
  | .member target _ => by simp only [stripped, literals, literals_stripped target]
  | .subscript target index => by
    simp only [stripped, literals, literals_stripped target, literals_stripped index, List.filter_append]
  | .conditional test consequent alternative => by
    simp only [stripped, literals, literals_stripped test, literals_stripped consequent, literals_stripped alternative,
      List.filter_append]
  | .function _ body => by simp only [stripped, literals, literals_stripped body]
  | .commented comment e => by
    simp [stripped, literals, literals_stripped e, Literal.isComment]

theorem literalsOfArgs_stripped : ∀ es : List Expr,
    literalsOfArgs (strippedArgs es) = (literalsOfArgs es).filter (!·.isComment)
  | [] => rfl
  | e :: es => by
    simp only [strippedArgs, literalsOfArgs, literals_stripped e, literalsOfArgs_stripped es, List.filter_append]

end

mutual

theorem stripped_stripped : ∀ e : Expr, e.stripped.stripped = e.stripped
  | .bool _ => rfl
  | .number _ => rfl
  | .string _ => rfl
  | .regex _ => rfl
  | .ident _ => rfl
  | .binary _ left right => by simp only [stripped, stripped_stripped left, stripped_stripped right]
  | .unary _ operand => by simp only [stripped, stripped_stripped operand]
  | .call callee args => by simp only [stripped, stripped_stripped callee, strippedArgs_stripped args]
  | .construct callee args => by simp only [stripped, stripped_stripped callee, strippedArgs_stripped args]
  | .member target _ => by simp only [stripped, stripped_stripped target]
  | .subscript target index => by simp only [stripped, stripped_stripped target, stripped_stripped index]
  | .conditional test consequent alternative => by
    simp only [stripped, stripped_stripped test, stripped_stripped consequent, stripped_stripped alternative]
  | .function _ body => by simp only [stripped, stripped_stripped body]
  | .commented _ e => by rw [stripped, stripped_stripped e]

theorem strippedArgs_stripped : ∀ es : List Expr, strippedArgs (strippedArgs es) = strippedArgs es
  | [] => rfl
  | e :: es => by simp only [strippedArgs, stripped_stripped e, strippedArgs_stripped es]

end

/-- An operand is a name behind its comments just if it is one without comments. -/
theorem uncommented_stripped_eq_ident (e : Expr) (name : Text) :
    e.stripped.uncommented = .ident name ↔ e.uncommented = .ident name := by
  fun_induction uncommented e with
  | case1 comment e ih => simpa only [stripped] using ih
  | case2 e bare =>
    cases e with
    | commented comment e => exact absurd rfl (bare comment e)
    | _ => simp [stripped, uncommented]

end Expr

namespace Value

mutual

/-- The value without the comments in the bodies of functions. -/
def stripped : Value → Value
  | .undefined => .undefined
  | .bool b => .bool b
  | .number n => .number n
  | .string t => .string t
  | .regex source => .regex source
  | .array items => .array (strippedItems items)
  | .date t => .date t
  | .builtin b => .builtin b
  | .function params body => .function params body.stripped
  | .method receiver m => .method receiver.stripped m

/-- The items without the comments in the bodies of functions. -/
def strippedItems : List Value → List Value
  | [] => []
  | v :: vs => v.stripped :: strippedItems vs

end

theorem strippedItems_eq (vs : List Value) : strippedItems vs = vs.map stripped := by
  induction vs with
  | nil => rfl
  | cons v vs ih => rw [strippedItems, ih, List.map_cons]

theorem first_stripped (vs : List Value) :
    (vs.map stripped).head?.getD .undefined = (vs.head?.getD .undefined).stripped := by
  cases vs <;> rfl

section
variable (v w : Value)

@[simp] theorem truthy_stripped : v.stripped.truthy = v.truthy := by cases v <;> rfl

@[simp] theorem typeOf_stripped : v.stripped.typeOf = v.typeOf := by cases v <;> rfl

@[simp] theorem toNumber_stripped : v.stripped.toNumber = v.toNumber := by cases v <;> rfl

end

mutual

theorem toText_stripped : ∀ v : Value, v.stripped.toText = v.toText
  | .undefined => rfl
  | .bool _ => rfl
  | .number _ => rfl
  | .string _ => rfl
  | .regex _ => rfl
  | .array items => congrArg (Text.join [',']) (itemTexts_stripped items)
  | .date _ => rfl
  | .builtin _ => rfl
  | .function _ _ => rfl
  | .method _ _ => rfl

theorem itemTexts_stripped : ∀ vs : List Value, itemTexts (strippedItems vs) = itemTexts vs
  | [] => rfl
  | v :: vs => congrArg₂ List.cons (toText_stripped v) (itemTexts_stripped vs)

end

attribute [simp] toText_stripped

section
variable (v w : Value)

theorem strictEquals_stripped : strictEquals v.stripped w.stripped = strictEquals v w := by
  cases v <;> cases w <;> rfl

theorem compare?_stripped : compare? v.stripped w.stripped = compare? v w := by
  cases v <;> cases w <;> simp only [stripped, compare?, toNumber]

theorem applyOp_stripped (op : BinaryOp) : v.stripped.applyOp op w.stripped = (v.applyOp op w).stripped := by
  cases op with
  | and | or =>
    simp only [applyOp, truthy_stripped]
    split <;> rfl
  | strictEq => simp only [applyOp, strictEquals_stripped, stripped]
  | sub => simp only [applyOp, toNumber_stripped, stripped]
  | lt | le | gt | ge => simp only [applyOp, compare?_stripped, stripped]

theorem member_stripped (property : Text) : v.stripped.member property = (v.member property).map stripped := by
  have known : v.stripped.method? property = v.method? property := by cases v <;> rfl
  unfold member
  rw [known]
  cases v.method? property with
  | some m => rfl
  | none =>
    cases v with
    | string t =>
      simp only [stripped, Except.map]
      split <;> rfl
    | array items =>
      simp only [stripped, strippedItems_eq, List.length_map, Except.map]
      split <;> rfl
    | _ => rfl

theorem subscript_stripped : v.stripped.subscript w.stripped = (v.subscript w).map stripped := by
  have index : w.stripped.index? = w.index? := by simp only [index?, toNumber_stripped]
  cases v with
  | string t =>
    simp only [stripped, subscript, index, Except.map]
    cases w.index?.bind fun i => (Text.units t)[i]? <;> rfl
  | array items =>
    simp only [stripped, subscript, index, strippedItems_eq, List.getElem?_map, Except.map]
    cases w.index? with
    | none => rfl
    | some i =>
      simp only [Option.bind_some]
      cases items[i]? <;> rfl
  | undefined =>
    rw [stripped, subscript, subscript, toNumber_stripped]
    rfl
  | _ => rfl

theorem callMethod_stripped (m : Method) : callMethod v.stripped m w.stripped = (callMethod v m w).stripped := by
  cases v with
  | string t =>
    cases m with
    | charCodeAt =>
      have code : charCode t w.stripped = charCode t w := by
        cases w <;> simp only [stripped, charCode, toNumber]
      simp only [stripped, callMethod, code]
      rfl
    | indexOf =>
      simp only [stripped, callMethod, toText_stripped, indexOf]
      split <;> rfl
    | split =>
      simp [stripped, callMethod, toText_stripped, strippedItems_eq, Function.comp_def]
    | _ => rfl
  | regex source => cases m <;> simp only [stripped, callMethod, toText_stripped]
  | date t => cases m <;> rfl
  | _ => rfl

theorem callBuiltin_stripped (now : LocalTime) (b : Builtin) (args : List Value) :
    callBuiltin now b (args.map stripped) = (callBuiltin now b args).stripped := by
  have arg (i : Nat) : ((args.map stripped)[i]?.getD .undefined).toText = (args[i]?.getD .undefined).toText := by
    rw [List.getElem?_map]
    cases args[i]? <;> simp
  cases b <;> simp only [callBuiltin, arg, stripped]

theorem construct_stripped (now : LocalTime) : construct now v.stripped = (construct now v).map stripped := by
  cases v with
  | builtin b => cases b <;> rfl
  | _ => rfl

end
end Value

namespace Env

/-- The environment without the comments in the bodies of functions. -/
def stripped (env : Env) : Env := { env with bindings := env.bindings.map fun (name, v) => (name, v.stripped) }

theorem get?_stripped (env : Env) (name : Text) : env.stripped.get? name = (env.get? name).map Value.stripped := by
  obtain ⟨bindings, now⟩ := env
  simp only [get?, stripped]
  induction bindings with
  | nil => rfl
  | cons binding bindings ih =>
    obtain ⟨k, v⟩ := binding
    simp only [List.map_cons, List.lookup_cons, ih]
    split <;> rfl

theorem bind_stripped (env : Env) (name : Text) (v : Value) :
    env.stripped.bind name v.stripped = (env.bind name v).stripped := by
  simp [bind, free, stripped, List.filter_map, Function.comp_def]

theorem bindParams_stripped (env : Env) (params : List Text) (args : List Value) :
    env.stripped.bindParams params (args.map Value.stripped) = (env.bindParams params args).stripped := by
  induction params generalizing env args with
  | nil => rfl
  | cons p params ih =>
    rw [bindParams, bindParams, Value.first_stripped, bind_stripped, ← List.map_tail, ih]

end Env

/-! ## Evaluation -/

namespace Expr

/-- What is computed from two results goes together if both do. -/
theorem bind_map {α β γ δ : Type} {first : Except EvalError α} {f : α → γ} {g : β → δ} {next : α → Except EvalError β}
    {next' : γ → Except EvalError δ} (same : ∀ a, next' (f a) = (next a).map g) :
    (first.map f >>= next') = (first >>= next).map g := by
  cases first with
  | error e => rfl
  | ok a => exact same a

section
variable {callBody : Env → Expr → Except EvalError Value}

theorem call_stripped (calls : ∀ env e, callBody env.stripped e.stripped = (callBody env e).map Value.stripped)
    (env : Env) (f : Value) (args : List Value) :
    f.stripped.call callBody env.stripped (args.map Value.stripped) = (f.call callBody env args).map Value.stripped := by
  cases f with
  | method receiver m =>
    simp only [Value.stripped, Value.call, Value.first_stripped, Value.callMethod_stripped, Except.map]
  | builtin b => simp only [Value.stripped, Value.call, Value.callBuiltin_stripped, Except.map, Env.stripped]
  | function params body => simp only [Value.stripped, Value.call, Env.bindParams_stripped, calls]
  | _ => rfl

mutual

/-- An expression without comments has the value, without comments, that it has with them, as long as that holds of the
    bodies of the functions it calls. -/
theorem evalWith_stripped (calls : ∀ env e, callBody env.stripped e.stripped = (callBody env e).map Value.stripped)
    (env : Env) : ∀ e, evalWith callBody env.stripped e.stripped = (evalWith callBody env e).map Value.stripped
  | .bool _ => by simp only [stripped, evalWith, Except.map, Value.stripped]
  | .number _ => by simp only [stripped, evalWith, Except.map, Value.stripped]
  | .string _ => by simp only [stripped, evalWith, Except.map, Value.stripped]
  | .regex literal => by
    simp only [stripped, evalWith, regexLiteral]
    cases Regex.tokenize (Regex.unescapeSlashes literal) <;> rfl
  | .ident name => by
    simp only [stripped, evalWith, Env.get?_stripped]
    cases env.get? name <;> rfl
  | .binary op left right => by
    simp only [stripped, evalWith, evalWith_stripped calls env left]
    refine bind_map fun l => ?_
    rw [Value.truthy_stripped]
    split
    · rfl
    · rw [evalWith_stripped calls env right]
      exact bind_map fun r => congrArg Except.ok (Value.applyOp_stripped l r op)
  | .unary .typeOf operand => by
    -- only a name that stands there itself is looked up without an error, with or without comments around it
    by_cases named : ∃ name, operand.uncommented = .ident name
    · obtain ⟨name, bare⟩ := named
      have bare' := (uncommented_stripped_eq_ident operand name).2 bare
      simp only [stripped, evalWith, bare, bare', Env.get?_stripped]
      cases env.get? name <;> simp [Except.map, Value.stripped]
    · have other (e : Expr) (unnamed : ∀ name, e.uncommented ≠ .ident name) (env : Env) :
          evalWith callBody env (.unary .typeOf e) = (evalWith callBody env e).map fun v => .string v.typeOf := by
        rw [evalWith]
        split
        · next name bare => exact absurd bare (unnamed name)
        · rfl
      rw [stripped, other operand (not_exists.1 named), other operand.stripped, evalWith_stripped calls env operand]
      · cases evalWith callBody env operand with
        | error e => rfl
        | ok v => simp only [Except.map, Value.typeOf_stripped, Value.stripped]
      · exact fun name bare => named ⟨name, (uncommented_stripped_eq_ident operand name).1 bare⟩
  | .unary .not operand => by
    simp only [stripped, evalWith, evalWith_stripped calls env operand]
    cases evalWith callBody env operand with
    | error e => rfl
    | ok v => simp only [Except.map, Value.truthy_stripped, Value.stripped]
  | .call callee args => by
    simp only [stripped, evalWith, evalWith_stripped calls env callee, evalArgs_stripped calls env args]
    exact bind_map fun f => bind_map fun vs => call_stripped calls env f vs
  | .construct callee _ => by
    simp only [stripped, evalWith, evalWith_stripped calls env callee]
    exact bind_map fun f => Value.construct_stripped f env.now
  | .member target property => by
    simp only [stripped, evalWith, evalWith_stripped calls env target]
    exact bind_map fun v => Value.member_stripped v property
  | .subscript target index => by
    simp only [stripped, evalWith, evalWith_stripped calls env target, evalWith_stripped calls env index]
    exact bind_map fun v => bind_map fun i => Value.subscript_stripped v i
  | .conditional test consequent alternative => by
    simp only [stripped, evalWith, evalWith_stripped calls env test, evalWith_stripped calls env consequent,
      evalWith_stripped calls env alternative]
    refine bind_map fun t => ?_
    rw [Value.truthy_stripped]
    split <;> rfl
  | .function _ _ => by simp only [stripped, evalWith, Except.map, Value.stripped]
  | .commented _ e => by rw [stripped, evalWith, evalWith_stripped calls env e]

theorem evalArgs_stripped (calls : ∀ env e, callBody env.stripped e.stripped = (callBody env e).map Value.stripped)
    (env : Env) : ∀ es, evalArgs callBody env.stripped (strippedArgs es) =
      (evalArgs callBody env es).map (List.map Value.stripped)
  | [] => by simp only [strippedArgs, evalArgs, Except.map, List.map_nil]
  | e :: es => by
    simp only [strippedArgs, evalArgs, evalWith_stripped calls env e, evalArgs_stripped calls env es]
    exact bind_map fun v => bind_map fun vs => rfl

end

/-- However deep calls may be nested, comments change nothing. -/
theorem evalWithin_stripped (depth : Nat) (env : Env) (e : Expr) :
    evalWithin depth env.stripped e.stripped = (evalWithin depth env e).map Value.stripped := by
  induction depth generalizing env e with
  | zero => exact evalWith_stripped (fun _ _ => rfl) env e
  | succ depth ih => exact evalWith_stripped ih env e

end

/-- An expression without its comments is evaluated as the expression itself, whatever the bound on nested calls: with
    the same error, or with values that differ at most in the comments in the bodies of functions. In particular both
    count as the same truth value. Of its literals and comments just the literals are left. -/
theorem comments_inert (e : Expr) :
    e.stripped.literals = e.literals.filter (!·.isComment) ∧
      (∀ depth env, (evalWithin depth env e.stripped).map Value.stripped = (evalWithin depth env e).map Value.stripped) ∧
      ∀ env, evalBool env e.stripped = evalBool env e := by
  have inert (depth : Nat) (env : Env) :
      (evalWithin depth env e.stripped).map Value.stripped = (evalWithin depth env e).map Value.stripped := by
    rw [← evalWithin_stripped, stripped_stripped, evalWithin_stripped]
  refine ⟨literals_stripped e, inert, fun env => ?_⟩
  have truth (v : Except EvalError Value) : (v.map Value.stripped).map Value.truthy = v.map Value.truthy := by
    cases v with
    | error e => rfl
    | ok v => simp only [Except.map, Value.truthy_stripped]
  rw [evalBool, evalBool, ← truth, ← truth (eval env e), eval, eval, inert]

end Expr
end ProxyRouting
