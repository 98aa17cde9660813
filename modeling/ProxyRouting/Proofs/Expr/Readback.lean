import ProxyRouting.Proofs.Expr.Reader
import ProxyRouting.Proofs.Json.Strings

/-!
Printed expressions read back: the reader finds in the text of an expression just this expression
(`readExpr_render`), so that no two expressions are printed alike (`render_injective`).
-/
namespace ProxyRouting.Expr

open Text (Stops)

/-- What may stand behind a dot. Every name of a script is such a name, and so are some texts that are none. -/
structure IsName (name : Text) : Prop where
  nonempty : name ≠ []
  chars : ∀ c ∈ name, isNameChar c = true
  start : name.head?.any Char.isDigit = false

/-- The words that the printer writes itself. -/
def printedWords : List Text := ["true", "false", "typeof", "new", "function"].map String.toList

/-- What may stand for a value. -/
structure IsVariable (name : Text) : Prop extends IsName name where
  unreserved : name ∉ printedWords

/-- Every slash is escaped, and no backslash at the end escapes nothing. -/
def isClosed : Text → Bool
  | '/' :: _ => false
  | ['\\'] => false
  | '\\' :: _ :: t => isClosed t
  | _ :: t => isClosed t
  | [] => true

/-- The text has a call that `new` in front of it would take for its own: its first, if no parentheses are around it. -/
def opensCall : Expr → Bool
  | .call _ _ => true
  | .construct callee _ => callee.opensCall
  | .member target _ => target.opensCall
  | .subscript target _ => target.opensCall
  | _ => false

/-- Expressions without comments, with names for names, with sources between slashes that no slash ends, and with
    constructors called by their names. -/
inductive Plain : Expr → Prop
  | bool (b : Bool) : Plain (.bool b)
  | number (n : Int) : Plain (.number n)
  | string (t : Text) : Plain (.string t)
  | regex (source : Text) (nonempty : source ≠ []) (closed : isClosed source = true) : Plain (.regex source)
  | ident (name : Text) (isVariable : IsVariable name) : Plain (.ident name)
  | binary (op : BinaryOp) (left right : Expr) (plainLeft : Plain left) (plainRight : Plain right) :
      Plain (.binary op left right)
  | unary (op : UnaryOp) (operand : Expr) (plainOperand : Plain operand) : Plain (.unary op operand)
  | call (callee : Expr) (args : List Expr) (plainCallee : Plain callee) (plainArgs : ∀ e ∈ args, Plain e) :
      Plain (.call callee args)
  | construct (name : Text) (args : List Expr) (isVariable : IsVariable name) (plainArgs : ∀ e ∈ args, Plain e) :
      Plain (.construct (.ident name) args)
  | member (target : Expr) (property : Text) (plainTarget : Plain target) (isName : IsName property) :
      Plain (.member target property)
  | subscript (target index : Expr) (plainTarget : Plain target) (plainIndex : Plain index) :
      Plain (.subscript target index)
  | conditional (test consequent alternative : Expr) (plainTest : Plain test) (plainConsequent : Plain consequent)
      (plainAlternative : Plain alternative) : Plain (.conditional test consequent alternative)
  | function (params : List Text) (body : Expr) (areVariables : ∀ p ∈ params, IsVariable p) (plainBody : Plain body) :
      Plain (.function params body)

/-- Expressions without comments that are spelled as `Plain` has it, but with any callees of constructors that are
    allowed. -/
inductive Spelled (allowed : Expr → Prop) : Expr → Prop
  | bool (b : Bool) : Spelled allowed (.bool b)
  | number (n : Int) : Spelled allowed (.number n)
  | string (t : Text) : Spelled allowed (.string t)
  | regex (source : Text) (nonempty : source ≠ []) (closed : isClosed source = true) : Spelled allowed (.regex source)
  | ident (name : Text) (isVariable : IsVariable name) : Spelled allowed (.ident name)
  | binary (op : BinaryOp) (left right : Expr) (spelledLeft : Spelled allowed left)
      (spelledRight : Spelled allowed right) : Spelled allowed (.binary op left right)
  | unary (op : UnaryOp) (operand : Expr) (spelledOperand : Spelled allowed operand) :
      Spelled allowed (.unary op operand)
  | call (callee : Expr) (args : List Expr) (spelledCallee : Spelled allowed callee)
      (spelledArgs : ∀ e ∈ args, Spelled allowed e) : Spelled allowed (.call callee args)
  | construct (callee : Expr) (args : List Expr) (isAllowed : allowed callee) (spelledCallee : Spelled allowed callee)
      (spelledArgs : ∀ e ∈ args, Spelled allowed e) : Spelled allowed (.construct callee args)
  | member (target : Expr) (property : Text) (spelledTarget : Spelled allowed target) (isName : IsName property) :
      Spelled allowed (.member target property)
  | subscript (target index : Expr) (spelledTarget : Spelled allowed target) (spelledIndex : Spelled allowed index) :
      Spelled allowed (.subscript target index)
  | conditional (test consequent alternative : Expr) (spelledTest : Spelled allowed test)
      (spelledConsequent : Spelled allowed consequent) (spelledAlternative : Spelled allowed alternative) :
      Spelled allowed (.conditional test consequent alternative)
  | function (params : List Text) (body : Expr) (areVariables : ∀ p ∈ params, IsVariable p)
      (spelledBody : Spelled allowed body) : Spelled allowed (.function params body)

/-- Every `new` of the expression is printed in front of the call that it belongs to. -/
def Bound (e : Expr) : Prop := Spelled (fun callee => callee.opensCall = false) e

theorem Plain.bound {e : Expr} (plain : Plain e) : Bound e := by
  induction plain with
  | bool b => exact .bool b
  | number n => exact .number n
  | string t => exact .string t
  | regex source nonempty closed => exact .regex source nonempty closed
  | ident name isVariable => exact .ident name isVariable
  | binary op left right _ _ boundLeft boundRight => exact .binary op left right boundLeft boundRight
  | unary op operand _ bound => exact .unary op operand bound
  | call callee args _ _ bound boundArgs => exact .call callee args bound boundArgs
  | construct name args isVariable _ boundArgs =>
    exact .construct (.ident name) args rfl (.ident name isVariable) boundArgs
  | member target property _ isName bound => exact .member target property bound isName
  | subscript target index _ _ bound boundIndex => exact .subscript target index bound boundIndex
  | conditional test consequent alternative _ _ _ bound boundThen boundElse =>
    exact .conditional test consequent alternative bound boundThen boundElse
  | function params body areVariables _ bound => exact .function params body areVariables bound

/-! ## Words -/

theorem stops_of_mem {c : Char} (other : c ∈ " ()[].,;".toList) (t : Text) : Stops isNameChar (c :: t) := by
  have all : ∀ d ∈ " ()[].,;".toList, isNameChar d = false := Text.forall_mem_of_all (by decide)
  exact Text.stops_cons (all c other) t

theorem isNameChar_of_isDigit {c : Char} (digit : c.isDigit = true) : isNameChar c = true := by
  simp [isNameChar, Char.isAlphanum, digit]

/-- A word is read as a word, and not as anything else that an operand may begin with. -/
theorem readHead_word {word t : Text} (nonempty : word ≠ []) (chars : ∀ c ∈ word, isNameChar c = true)
    (stops : Stops isNameChar t) : readHead (word ++ t) = readWord word t := by
  obtain ⟨c, u, rfl⟩ := List.exists_cons_of_ne_nil nonempty
  have part : isNameChar c = true := chars c (by simp)
  have cut := Text.takeWhile_run chars stops
  have rest := Text.dropWhile_run chars stops
  rw [List.cons_append] at cut rest ⊢
  rw [readHead]
  · rw [cut, rest]
  all_goals
    intro v same
    cases same
    exact absurd part (by decide)

theorem readRegex_closed {source : Text} (closed : isClosed source = true) (t : Text) :
    readRegex (source ++ '/' :: t) = some (source, t) := by
  fun_induction isClosed source with
  | case1 => cases closed
  | case2 => cases closed
  | case3 c u ih => simp [readRegex, ih closed]
  | case4 c u noSlash noEnd noEscape ih =>
    have plain : c ≠ '\\' := by
      rintro rfl
      cases u with
      | nil => exact noEnd rfl rfl
      | cons d u => exact noEscape d u rfl rfl
    rw [List.cons_append, readRegex]
    · rw [ih closed]
      rfl
    · exact noSlash
    · intro d v escape
      exact absurd escape plain
  | case5 => rfl

theorem operator?_symbol (op : BinaryOp) (t : Text) : operator? (op.symbol ++ ' ' :: t) = some (op, t) := by
  cases op <;> rfl

theorem readNames_last {name : Text} (isName : IsName name) (t : Text) :
    readNames (name ++ ')' :: t) = some ([name], t) := by
  have stops : Stops isNameChar (')' :: t) := stops_of_mem (by decide) t
  have behind := Text.dropWhile_run isName.chars stops
  rw [readNames]
  split
  · next cut =>
    rw [behind] at cut
    cases cut
    rw [Text.takeWhile_run isName.chars stops]
  · next cut =>
    rw [behind] at cut
    cases cut
  · next other _ => exact absurd behind (other t)

theorem readNames_more {name : Text} (isName : IsName name) (t : Text) :
    readNames (name ++ ',' :: ' ' :: t) = (readNames t).map fun found => (name :: found.1, found.2) := by
  have stops : Stops isNameChar (',' :: ' ' :: t) := stops_of_mem (by decide) _
  have behind := Text.dropWhile_run isName.chars stops
  rw [readNames]
  split
  · next cut =>
    rw [behind] at cut
    cases cut
  · next cut =>
    rw [behind] at cut
    cases cut
    rw [Text.takeWhile_run isName.chars stops]
  · next _ other => exact absurd behind (other t)

theorem readNames_join {names : List Text} (nonempty : names ≠ []) (each : ∀ name ∈ names, IsName name) (t : Text) :
    readNames (Text.join ", ".toList names ++ ')' :: t) = some (names, t) := by
  induction names with
  | nil => exact absurd rfl nonempty
  | cons name names ih =>
    have isName := each name (by simp)
    cases names with
    | nil => exact readNames_last isName t
    | cons other names =>
      have later := ih (by simp) fun n member => each n (List.mem_cons_of_mem name member)
      have joined : Text.join ", ".toList (name :: other :: names) ++ ')' :: t =
          name ++ ',' :: ' ' :: (Text.join ", ".toList (other :: names) ++ ')' :: t) := by
        simp [Text.join]
      rw [joined, readNames_more isName, later]
      rfl

theorem readParams_join {params : List Text} (each : ∀ p ∈ params, IsName p) (t : Text) :
    readParams (Text.join ", ".toList params ++ ')' :: t) = some (params, t) := by
  cases params with
  | nil => rfl
  | cons p params =>
    have isName := each p (by simp)
    obtain ⟨c, u, rfl⟩ := List.exists_cons_of_ne_nil isName.nonempty
    have first : isNameChar c = true := isName.chars c (by simp)
    have begins : ∃ v, Text.join ", ".toList ((c :: u) :: params) ++ ')' :: t = c :: v := by
      cases params with
      | nil => exact ⟨_, rfl⟩
      | cons q params => exact ⟨_, rfl⟩
    rw [readParams]
    · exact readNames_join (by simp) each t
    · intro v closing
      obtain ⟨w, whole⟩ := begins
      rw [whole] at closing
      cases closing
      exact absurd first (by decide)

/-- How tightly what follows an expression would have to hold the last operand of it to take that operand away. -/
def openTo : Expr → Nat
  | .binary op _ _ => op.precedence + 1
  | .unary _ _ => unaryPrecedence
  | .conditional _ _ _ => conditionalPrecedence
  | _ => 20

/-- How tightly an expression holds together at its left: an access to a member more tightly than a call. -/
def hold (e : Expr) : Nat :=
  if e.precedence = callPrecedence ∧ e.opensCall = false then callPrecedence + 1 else e.precedence

theorem precedence_le_hold (e : Expr) : e.precedence ≤ e.hold := by
  unfold hold
  split
  · next chain =>
    rw [chain.1]
    exact Nat.le_succ _
  · exact Nat.le_refl _

theorem lt_hold {e : Expr} (apart : e.opensCall = false) (bare : callPrecedence ≤ e.precedence) :
    callPrecedence + 1 ≤ e.hold := by
  unfold hold
  split
  · exact Nat.le_refl _
  · next other =>
    have : e.precedence ≠ callPrecedence := fun chain => other ⟨chain, apart⟩
    omega

/-- What is accessed holds together as tightly as the access to it. -/
theorem hold_of_access {e target : Expr} (chain : e.precedence = callPrecedence)
    (opens : e.opensCall = target.opensCall) (bare : callPrecedence ≤ target.precedence) : e.hold ≤ target.hold := by
  cases apart : target.opensCall with
  | false =>
    have held : e.hold = callPrecedence + 1 := by rw [hold, if_pos ⟨chain, opens.trans apart⟩]
    rw [held]
    exact lt_hold apart bare
  | true =>
    have held : e.hold = callPrecedence := by simp [hold, chain, opens, apart]
    rw [held]
    exact Nat.le_trans bare (precedence_le_hold target)

theorem hold_le_of_chain {e : Expr} (chain : e.precedence = callPrecedence) : e.hold ≤ callPrecedence + 1 := by
  unfold hold
  split
  · exact Nat.le_refl _
  · rw [chain]
    exact Nat.le_succ _

theorem precedence_bounds (op : BinaryOp) : 5 ≤ op.precedence ∧ op.precedence ≤ 13 := by
  cases op <;> decide

theorem hold_binary (op : BinaryOp) (left right : Expr) : (Expr.binary op left right).hold = op.precedence := by
  cases op <;> rfl

theorem precedence_le_openTo {e : Expr} (bound : Bound e) : e.precedence ≤ e.openTo := by
  cases bound with
  | number n =>
    show (if n < 0 then unaryPrecedence else 20) ≤ 20
    split <;> decide
  | binary op _ _ _ _ => exact Nat.le_succ _
  | unary _ _ _ => exact Nat.le_refl 15
  | conditional _ _ _ _ _ _ => exact Nat.le_refl 3
  | bool _ => exact Nat.le_refl 20
  | string _ => exact Nat.le_refl 20
  | regex _ _ _ => exact Nat.le_refl 20
  | ident _ _ => exact Nat.le_refl 20
  | function _ _ _ _ => exact Nat.le_of_lt (by decide : 1 < 20)
  | _ => exact Nat.le_of_lt (by decide : 18 < 20)

/-- A left operand has no operand that its operator could take away. -/
theorem openTo_of_left {op : BinaryOp} {e : Expr} (tight : op.precedence ≤ e.precedence) : op.precedence + 1 ≤ e.openTo := by
  have bounds := precedence_bounds op
  cases e with
  | binary inner _ _ => exact Nat.succ_le_succ tight
  | unary _ _ =>
    show op.precedence + 1 ≤ 15
    omega
  | conditional _ _ _ =>
    have : op.precedence ≤ 3 := tight
    omega
  | _ =>
    show op.precedence + 1 ≤ 20
    omega

theorem openTo_of_call {e : Expr} (tight : callPrecedence ≤ e.precedence) : e.openTo = 20 := by
  cases e with
  | binary op _ _ =>
    have bounds := precedence_bounds op
    have : 18 ≤ op.precedence := tight
    omega
  | unary _ _ => exact absurd (show 18 ≤ 15 from tight) (by decide)
  | conditional _ _ _ => exact absurd (show 18 ≤ 3 from tight) (by decide)
  | _ => rfl

theorem grip_le (t : Text) : grip t ≤ callPrecedence + 2 := by
  unfold grip
  split
  · exact Nat.le_succ _
  · exact Nat.le_refl _
  · exact Nat.le_refl _
  · decide
  · next u _ =>
    cases operator? u with
    | none => exact Nat.zero_le _
    | some found => exact Nat.le_trans (Nat.succ_le_succ (precedence_bounds found.1).2) (by decide)
  · exact Nat.zero_le _

theorem grip_operator (op : BinaryOp) (t : Text) : grip (' ' :: (op.symbol ++ ' ' :: t)) = op.precedence + 1 := by
  rw [grip]
  · simp [operator?_symbol]
  · intro u same
    cases op <;> cases same

/-! ## Steps of the reader -/

section
variable {level : Nat} {e : Expr} {t rest : Text}

theorem readTail_stop (loose : grip t ≤ level) : readTail level e t = some (e, t) := by
  rw [readTail.eq_def, if_pos loose]

theorem readTail_call {args : List Expr} (tight : level ≤ callPrecedence) (read : readArgs t = some (args, rest))
    (shorter : rest.length ≤ t.length) : readTail level e ('(' :: t) = readTail level (.call e args) rest := by
  have held : ¬ grip ('(' :: t) ≤ level := by
    show ¬ callPrecedence + 1 ≤ level
    omega
  rw [readTail, if_neg held, read, readOn_some shorter]

theorem readTail_member {property : Text} (tight : level ≤ callPrecedence + 1) (isName : IsName property)
    (stops : Stops isNameChar t) :
    readTail level e ('.' :: (property ++ t)) = readTail level (.member e property) t := by
  have held : ¬ grip ('.' :: (property ++ t)) ≤ level := by
    show ¬ callPrecedence + 2 ≤ level
    omega
  rw [readTail, if_neg held]
  simp only [Text.takeWhile_run isName.chars stops, Text.dropWhile_run isName.chars stops]

theorem readTail_subscript {index : Expr} (tight : level ≤ callPrecedence + 1)
    (read : readExpr 0 t = some (index, ']' :: rest)) (shorter : (']' :: rest).length ≤ t.length) :
    readTail level e ('[' :: t) = readTail level (.subscript e index) rest := by
  have held : ¬ grip ('[' :: t) ≤ level := by
    show ¬ callPrecedence + 2 ≤ level
    omega
  rw [readTail, if_neg held, read, readOn_some shorter]
  rfl

theorem readTail_conditional {consequent alternative : Expr} {u : Text} (tight : level ≤ conditionalPrecedence)
    (first : readExpr conditionalPrecedence t = some (consequent, ' ' :: ':' :: ' ' :: u))
    (second : readExpr conditionalPrecedence u = some (alternative, rest))
    (shorter : (' ' :: ':' :: ' ' :: u).length ≤ t.length) (shorter' : rest.length ≤ u.length) :
    readTail level e (' ' :: '?' :: ' ' :: t) = readTail level (.conditional e consequent alternative) rest := by
  have held : ¬ grip (' ' :: '?' :: ' ' :: t) ≤ level := by
    show ¬ conditionalPrecedence + 1 ≤ level
    omega
  rw [readTail, if_neg held, first, readOn_some shorter]
  show readOn u (readExpr conditionalPrecedence u) _ = _
  rw [second, readOn_some shorter']

theorem readTail_binary {op : BinaryOp} {right : Expr} (tight : level ≤ op.precedence)
    (read : readExpr (op.precedence + 1) t = some (right, rest)) (shorter : rest.length ≤ t.length) :
    readTail level e (' ' :: (op.symbol ++ ' ' :: t)) = readTail level (.binary op e right) rest := by
  have held : ¬ grip (' ' :: (op.symbol ++ ' ' :: t)) ≤ level := by
    rw [grip_operator]
    omega
  rw [readTail, if_neg held]
  · have behind : t.length ≤ (op.symbol ++ ' ' :: t).length := by
      simp
      omega
    rw [operator?_symbol, readOn_some behind, read, readOn_some shorter]
  · intro u same
    cases op <;> cases same

end

theorem enclose_zero (k : Nat) (t : Text) : enclose (k < 0) t = t := by
  simp [enclose]

theorem print_enclose {e : Expr} (bound : Bound e) (outer : Nat) :
    print outer e = enclose (e.precedence < outer) (print 0 e) := by
  cases bound <;> simp only [print, enclose_zero] <;> rfl

/-- The text of an expression is read as this expression and goes on behind it, unless what is there takes away its
    last operand. -/
def ReadsBack (e : Expr) : Prop :=
  ∀ level ≤ e.hold, ∀ t, Stops isNameChar t → grip t ≤ e.openTo →
    readExpr level (print 0 e ++ t) = readTail level e t

section
variable {e : Expr} {t : Text}

theorem ReadsBack.of_head (head : ∀ t, Stops isNameChar t → grip t ≤ e.openTo → readHead (print 0 e ++ t) = some (e, t)) :
    ReadsBack e := by
  intro level _ t stops loose
  rw [readExpr, head t stops loose, readOn_some (by simp)]

theorem ReadsBack.whole (back : ReadsBack e) (stops : Stops isNameChar t) (loose : grip t = 0) :
    readExpr 0 (print 0 e ++ t) = some (e, t) := by
  rw [back 0 (Nat.zero_le _) t stops (by omega), readTail_stop (by omega)]

/-- Parentheses keep an expression from whatever follows. -/
theorem ReadsBack.enclosed (back : ReadsBack e) (level : Nat) (t : Text) :
    readExpr level ('(' :: print 0 e ++ ')' :: t) = readTail level e t := by
  have inside : readExpr 0 (print 0 e ++ ')' :: t) = some (e, ')' :: t) :=
    back.whole (stops_of_mem (by decide) t) rfl
  have head : readHead ('(' :: print 0 e ++ ')' :: t) = some (e, t) := by
    rw [List.cons_append, readHead, inside]
    rfl
  have behind : t.length ≤ ('(' :: print 0 e ++ ')' :: t).length := by
    simp
    omega
  rw [readExpr, head, readOn_some behind]

/-- An expression where it has been put, in parentheses if it binds too loosely there. -/
theorem ReadsBack.placed (back : ReadsBack e) (bound : Bound e) {level outer : Nat}
    (lower : outer ≤ e.precedence → level ≤ e.hold) (stops : Stops isNameChar t)
    (loose : outer ≤ e.precedence → grip t ≤ e.openTo) :
    readExpr level (print outer e ++ t) = readTail level e t := by
  rw [print_enclose bound, enclose]
  by_cases needed : e.precedence < outer
  · simp only [needed, decide_true, ↓reduceIte, List.append_assoc, List.cons_append]
    exact back.enclosed level t
  · simp only [needed, decide_false, Bool.false_eq_true, ↓reduceIte]
    exact back level (lower (by omega)) t stops (loose (by omega))

/-- An operand with nothing behind it that would take a left operand. -/
theorem ReadsBack.operand (back : ReadsBack e) (bound : Bound e) {level : Nat} (stops : Stops isNameChar t)
    (loose : grip t ≤ level) : readExpr level (print level e ++ t) = some (e, t) := by
  have held : level ≤ e.precedence → grip t ≤ e.openTo := by
    intro tight
    exact Nat.le_trans loose (Nat.le_trans tight (precedence_le_openTo bound))
  rw [back.placed bound (Nat.le_trans · (precedence_le_hold e)) stops held, readTail_stop loose]

/-- What is called. -/
theorem ReadsBack.callee (back : ReadsBack e) (bound : Bound e) {level : Nat}
    (lower : callPrecedence ≤ e.precedence → level ≤ e.hold) (stops : Stops isNameChar t) :
    readExpr level (print callPrecedence e ++ t) = readTail level e t := by
  refine back.placed bound lower stops ?_
  intro closed
  rw [openTo_of_call closed]
  exact Nat.le_trans (grip_le t) (by decide)

/-- What a member is taken of. -/
theorem ReadsBack.target (back : ReadsBack e) (bound : Bound e) {level : Nat}
    (lower : callPrecedence ≤ e.precedence → level ≤ e.hold) (stops : Stops isNameChar t) :
    readExpr level (enclose e.isNumber (print (if e.isNumber then 0 else callPrecedence) e) ++ t) =
      readTail level e t := by
  cases number : e.isNumber with
  | true =>
    simp only [enclose, ↓reduceIte, List.append_assoc, List.cons_append]
    exact back.enclosed level t
  | false =>
    simp only [enclose, Bool.false_eq_true, ↓reduceIte]
    exact back.callee bound lower stops

end

theorem readExpr_closing (level : Nat) (t : Text) : readExpr level (')' :: t) = none := by
  have word (u : Text) : readWord [] u = none := by
    rw [readWord.eq_def]
    rfl
  have head : readHead (')' :: t) = none := by
    rw [readHead]
    · exact word _
    all_goals
      intro u same
      cases same
  rw [readExpr, head]
  rfl

/-- The text of the arguments behind another, with what follows. -/
def moreArgs : List Expr → Text → Text
  | [], t => ')' :: t
  | e :: es, t => ',' :: ' ' :: (print conditionalPrecedence e ++ moreArgs es t)

theorem printArgs_cons (e : Expr) (es : List Expr) (t : Text) :
    printArgs (e :: es) ++ ')' :: t = print conditionalPrecedence e ++ moreArgs es t := by
  induction es generalizing e with
  | nil => rw [printArgs, moreArgs]
  | cons next es ih =>
    have here : printArgs (e :: next :: es) =
        print conditionalPrecedence e ++ ", ".toList ++ printArgs (next :: es) := by rw [printArgs]; simp
    rw [here, moreArgs, List.append_assoc, ih]
    simp

section
variable {e : Expr} {es : List Expr} (bound : ∀ e ∈ es, Bound e) (back : ∀ e ∈ es, ReadsBack e) (t : Text)
include bound back

theorem readExpr_argument (boundHere : Bound e) (backHere : ReadsBack e) :
    readExpr conditionalPrecedence (print conditionalPrecedence e ++ moreArgs es t) = some (e, moreArgs es t) := by
  cases es with
  | nil => exact backHere.operand boundHere (stops_of_mem (by decide) _) (Nat.zero_le _)
  | cons next es => exact backHere.operand boundHere (stops_of_mem (by decide) _) (Nat.zero_le _)

theorem readMoreArgs_moreArgs : readMoreArgs (moreArgs es t) = some (es, t) := by
  induction es with
  | nil => rw [moreArgs, readMoreArgs]
  | cons e es ih =>
    have later := ih (fun f member => bound f (by simp [member])) fun f member => back f (by simp [member])
    have first := readExpr_argument (fun f member => bound f (List.mem_cons_of_mem e member))
      (fun f member => back f (List.mem_cons_of_mem e member)) t (bound e (by simp)) (back e (by simp))
    rw [moreArgs, readMoreArgs, first, readOn_some (by simp), later]
    rfl

theorem readArgs_printArgs : readArgs (printArgs es ++ ')' :: t) = some (es, t) := by
  cases es with
  | nil => rw [printArgs, List.nil_append, readArgs]
  | cons e es =>
    have boundLater : ∀ f ∈ es, Bound f := fun f member => bound f (List.mem_cons_of_mem e member)
    have backLater : ∀ f ∈ es, ReadsBack f := fun f member => back f (List.mem_cons_of_mem e member)
    have first := readExpr_argument boundLater backLater t (bound e (by simp)) (back e (by simp))
    rw [printArgs_cons, readArgs]
    · rw [first, readOn_some (by simp), readMoreArgs_moreArgs boundLater backLater t]
      rfl
    · intro u same
      rw [same, readExpr_closing] at first
      cases first

end

theorem readWord_other {word : Text} (nonempty : word ≠ []) (other : word ∉ printedWords) (t : Text) :
    readWord word t = if word.head?.any Char.isDigit then some (.number (Text.digitsValue word), t)
      else some (.ident word, t) := by
  simp only [printedWords, List.map_cons, List.map_nil, List.mem_cons, List.not_mem_nil, or_false, not_or] at other
  obtain ⟨noTrue, noFalse, noTypeOf, noNew, noFunction⟩ := other
  rw [readWord.eq_def, if_neg noTrue, if_neg noFalse, if_neg noTypeOf, if_neg noNew, if_neg noFunction, if_neg nonempty]

theorem readHead_ident {name t : Text} (isVariable : IsVariable name) (stops : Stops isNameChar t) :
    readHead (name ++ t) = some (.ident name, t) := by
  rw [readHead_word isVariable.nonempty isVariable.chars stops, readWord_other isVariable.nonempty isVariable.unreserved,
    isVariable.start]
  rfl

theorem readHead_number (n : Int) {t : Text} (stops : Stops isNameChar t) :
    readHead (Text.ofInt n ++ t) = some (.number n, t) := by
  have digits (n : Nat) : ∀ c ∈ Text.ofNat n, isNameChar c = true := fun c member =>
    isNameChar_of_isDigit (Text.isDigit_of_mem_ofNat c member)
  cases n with
  | ofNat n =>
    have starts : (Text.ofNat n).head?.any Char.isDigit = true := by
      obtain ⟨c, u, whole⟩ := List.exists_cons_of_ne_nil (Text.ofNat_ne_nil n)
      have digit := Text.isDigit_of_mem_ofNat c (n := n) (by simp [whole])
      simp [whole, digit]
    have other : Text.ofNat n ∉ printedWords := by
      intro printed
      have letters : ∀ word ∈ printedWords, word.head?.any Char.isDigit = false := by decide
      rw [letters _ printed] at starts
      cases starts
    show readHead (Text.ofNat n ++ t) = _
    rw [readHead_word (Text.ofNat_ne_nil n) (digits n) stops, readWord_other (Text.ofNat_ne_nil n) other, starts,
      Text.digitsValue_ofNat]
    rfl
  | negSucc n =>
    show readHead ('-' :: (Text.ofNat (n + 1) ++ t)) = _
    rw [readHead, Text.takeWhile_run (digits (n + 1)) stops, Text.dropWhile_run (digits (n + 1)) stops,
      Text.digitsValue_ofNat]
    rfl

theorem readHead_printed {word t : Text} (printed : word ∈ printedWords) (stops : Stops isNameChar t) :
    readHead (word ++ t) = readWord word t := by
  have names : ∀ w ∈ printedWords, w ≠ [] ∧ w.all isNameChar = true := by decide
  obtain ⟨nonempty, chars⟩ := names word printed
  exact readHead_word nonempty (List.all_eq_true.1 chars) stops

theorem readWord_new {callee : Expr} {t rest : Text}
    (read : readExpr (callPrecedence + 1) t = some (callee, '(' :: rest)) (shorter : ('(' :: rest).length ≤ t.length) :
    readWord "new".toList (' ' :: t) = (readArgs rest).map fun found => (.construct callee found.1, found.2) := by
  rw [readWord.eq_def, if_neg (by decide), if_neg (by decide), if_neg (by decide), if_pos rfl]
  show readOn t (readExpr (callPrecedence + 1) t) _ = _
  rw [read, readOn_some shorter]
  rfl

theorem readWord_function {params : List Text} (each : ∀ p ∈ params, IsName p) (t : Text) :
    readWord "function".toList (' ' :: '(' :: (Text.join ", ".toList params ++ ')' :: (" \x7b return ".toList ++ t))) =
      (readExpr 0 t).bind fun body =>
        (Text.dropLead? "; \x7d".toList body.2).map fun rest => (.function params body.1, rest) := by
  have lead : Text.dropLead? " \x7b return ".toList (" \x7b return ".toList ++ t) = some t := rfl
  have behind : (" \x7b return ".toList ++ t).length ≤
      (Text.join ", ".toList params ++ ')' :: (" \x7b return ".toList ++ t)).length := by
    simp only [List.length_append, List.length_cons]
    omega
  rw [readWord.eq_def, if_neg (by decide), if_neg (by decide), if_neg (by decide), if_neg (by decide), if_pos rfl]
  show readOn _ (readParams _) _ = _
  rw [readParams_join each, readOn_some behind]
  split
  · next cut =>
    rw [lead] at cut
    cases cut
    rfl
  · next missing =>
    rw [lead] at missing
    cases missing

theorem readHead_bool (b : Bool) {t : Text} (stops : Stops isNameChar t) :
    readHead ((if b then "true".toList else "false".toList) ++ t) = some (.bool b, t) := by
  cases b with
  | true =>
    show readHead ("true".toList ++ t) = _
    rw [readHead_printed (by decide) stops, readWord.eq_def, if_pos rfl]
  | false =>
    show readHead ("false".toList ++ t) = _
    rw [readHead_printed (by decide) stops, readWord.eq_def, if_neg (by decide), if_pos rfl]

theorem readHead_quote (s t : Text) : readHead (Text.quote s ++ t) = some (.string s, t) := by
  have whole : Text.quote s ++ t = '"' :: (s.flatMap Text.escapeChar ++ '"' :: t) := by simp [Text.quote]
  rw [whole, readHead, Json.readString_quoted]
  rfl

theorem readHead_regex {source : Text} (closed : isClosed source = true) (t : Text) :
    readHead ('/' :: (source ++ '/' :: t)) = some (.regex source, t) := by
  rw [readHead, readRegex_closed closed]
  rfl

/-! ## Expressions of each kind -/

namespace ReadsBack

theorem binary {op : BinaryOp} {left right : Expr} (boundLeft : Bound left) (boundRight : Bound right)
    (backLeft : ReadsBack left) (backRight : ReadsBack right) : ReadsBack (.binary op left right) := by
  intro level tight t stops loose
  have whole : print 0 (.binary op left right) ++ t =
      print op.precedence left ++ ' ' :: (op.symbol ++ ' ' :: (print (op.precedence + 1) right ++ t)) := by
    rw [print, enclose_zero]
    simp only [List.append_assoc, List.cons_append]
  have lower : level ≤ op.precedence := hold_binary op left right ▸ tight
  have last : readExpr (op.precedence + 1) (print (op.precedence + 1) right ++ t) = some (right, t) :=
    backRight.operand boundRight stops loose
  have held (bare : op.precedence ≤ left.precedence) : level ≤ left.hold :=
    Nat.le_trans lower (Nat.le_trans bare (precedence_le_hold left))
  rw [whole, backLeft.placed boundLeft held (stops_of_mem (by decide) _),
    readTail_binary lower last (List.suffix_append _ t).length_le]
  intro bare
  rw [grip_operator]
  exact openTo_of_left bare

theorem unary {operand : Expr} (op : UnaryOp) (bound : Bound operand) (back : ReadsBack operand) :
    ReadsBack (.unary op operand) := by
  refine .of_head fun t stops loose => ?_
  have inside : readExpr unaryPrecedence (print unaryPrecedence operand ++ t) = some (operand, t) :=
    back.operand bound stops loose
  rw [print, enclose_zero]
  cases op with
  | not =>
    show readHead ('!' :: (print unaryPrecedence operand ++ t)) = _
    rw [readHead, inside]
    rfl
  | typeOf =>
    have whole : UnaryOp.typeOf.symbol ++ (if UnaryOp.typeOf = .typeOf then [' '] else []) ++
        print unaryPrecedence operand ++ t = "typeof".toList ++ ' ' :: (print unaryPrecedence operand ++ t) := by
      rw [if_pos rfl, List.append_assoc, List.append_assoc]
      rfl
    rw [whole, readHead_printed (by decide) (stops_of_mem (by decide) _), readWord.eq_def, if_neg (by decide),
      if_neg (by decide), if_pos rfl]
    show (readExpr unaryPrecedence (print unaryPrecedence operand ++ t)).map _ = _
    rw [inside]
    rfl

theorem call {callee : Expr} {args : List Expr} (bound : Bound callee) (boundArgs : ∀ e ∈ args, Bound e)
    (back : ReadsBack callee) (backArgs : ∀ e ∈ args, ReadsBack e) : ReadsBack (.call callee args) := by
  intro level tight t stops _
  have whole : print 0 (.call callee args) ++ t =
      print callPrecedence callee ++ '(' :: (printArgs args ++ ')' :: t) := by
    rw [print, enclose_zero]
    simp
  have behind : t.length ≤ (printArgs args ++ ')' :: t).length := by
    simp
    omega
  have held (bare : callPrecedence ≤ callee.precedence) : level ≤ callee.hold :=
    Nat.le_trans tight (Nat.le_trans bare (precedence_le_hold callee))
  rw [whole, back.callee bound held (stops_of_mem (by decide) _),
    readTail_call tight (readArgs_printArgs boundArgs backArgs t) behind]

theorem construct {callee : Expr} {args : List Expr} (apart : callee.opensCall = false) (bound : Bound callee)
    (boundArgs : ∀ e ∈ args, Bound e) (back : ReadsBack callee) (backArgs : ∀ e ∈ args, ReadsBack e) :
    ReadsBack (.construct callee args) := by
  refine .of_head fun t _ _ => ?_
  have whole : print 0 (.construct callee args) ++ t =
      "new".toList ++ ' ' :: (print callPrecedence callee ++ '(' :: (printArgs args ++ ')' :: t)) := by
    rw [print, enclose_zero]
    simp
  have inside : readExpr (callPrecedence + 1) (print callPrecedence callee ++ '(' :: (printArgs args ++ ')' :: t)) =
      some (callee, '(' :: (printArgs args ++ ')' :: t)) := by
    have stop : grip ('(' :: (printArgs args ++ ')' :: t)) ≤ callPrecedence + 1 := Nat.le_refl _
    rw [back.callee bound (lt_hold apart) (stops_of_mem (by decide) _), readTail_stop stop]
  rw [whole, readHead_printed (by decide) (stops_of_mem (by decide) _), readWord_new inside (by simp),
    readArgs_printArgs boundArgs backArgs t]
  rfl

theorem member {target : Expr} {property : Text} (bound : Bound target) (isName : IsName property)
    (back : ReadsBack target) : ReadsBack (.member target property) := by
  intro level tight t stops _
  have whole : print 0 (.member target property) ++ t =
      enclose target.isNumber (print (if target.isNumber then 0 else callPrecedence) target) ++
        '.' :: (property ++ t) := by
    rw [print, enclose_zero]
    simp
  have lower : level ≤ callPrecedence + 1 := Nat.le_trans tight (hold_le_of_chain rfl)
  rw [whole, back.target bound (fun bare => Nat.le_trans tight (hold_of_access rfl rfl bare)) (stops_of_mem (by decide) _),
    readTail_member lower isName stops]

theorem subscript {target index : Expr} (bound : Bound target) (back : ReadsBack target) (backIndex : ReadsBack index) :
    ReadsBack (.subscript target index) := by
  intro level tight t stops _
  have whole : print 0 (.subscript target index) ++ t =
      enclose target.isNumber (print (if target.isNumber then 0 else callPrecedence) target) ++
        '[' :: (print 0 index ++ ']' :: t) := by
    rw [print, enclose_zero]
    simp
  have inside : readExpr 0 (print 0 index ++ ']' :: t) = some (index, ']' :: t) :=
    backIndex.whole (stops_of_mem (by decide) _) rfl
  have lower : level ≤ callPrecedence + 1 := Nat.le_trans tight (hold_le_of_chain rfl)
  rw [whole, back.target bound (fun bare => Nat.le_trans tight (hold_of_access rfl rfl bare)) (stops_of_mem (by decide) _),
    readTail_subscript lower inside (by simp)]

theorem conditional {test consequent alternative : Expr} (bound : Bound test) (boundThen : Bound consequent)
    (boundElse : Bound alternative) (back : ReadsBack test) (backThen : ReadsBack consequent)
    (backElse : ReadsBack alternative) : ReadsBack (.conditional test consequent alternative) := by
  intro level tight t stops loose
  have whole : print 0 (.conditional test consequent alternative) ++ t =
      print (conditionalPrecedence + 1) test ++ ' ' :: '?' :: ' ' :: (print conditionalPrecedence consequent ++
        ' ' :: ':' :: ' ' :: (print conditionalPrecedence alternative ++ t)) := by
    rw [print, enclose_zero]
    simp
  have lower : level ≤ conditionalPrecedence := tight
  have first : readExpr conditionalPrecedence (print conditionalPrecedence consequent ++
      ' ' :: ':' :: ' ' :: (print conditionalPrecedence alternative ++ t)) =
        some (consequent, ' ' :: ':' :: ' ' :: (print conditionalPrecedence alternative ++ t)) :=
    backThen.operand boundThen (stops_of_mem (by decide) _) (Nat.zero_le _)
  have second : readExpr conditionalPrecedence (print conditionalPrecedence alternative ++ t) =
      some (alternative, t) := backElse.operand boundElse stops loose
  have held (bare : conditionalPrecedence + 1 ≤ test.precedence) : level ≤ test.hold :=
    Nat.le_trans lower (Nat.le_trans (Nat.le_of_succ_le bare) (precedence_le_hold test))
  rw [whole, back.placed bound held (stops_of_mem (by decide) _),
    readTail_conditional lower first second (by simp) (by simp)]
  intro bare
  exact Nat.le_trans bare (precedence_le_openTo bound)

theorem function {params : List Text} {body : Expr} (areVariables : ∀ p ∈ params, IsVariable p) (back : ReadsBack body) :
    ReadsBack (.function params body) := by
  refine .of_head fun t _ _ => ?_
  have whole : print 0 (.function params body) ++ t = "function".toList ++ ' ' :: '(' :: (Text.join ", ".toList params ++
      ')' :: (" \x7b return ".toList ++ (print 0 body ++ ';' :: ' ' :: '\x7d' :: t))) := by
    rw [print, enclose_zero]
    simp
  have inside : readExpr 0 (print 0 body ++ ';' :: ' ' :: '\x7d' :: t) = some (body, ';' :: ' ' :: '\x7d' :: t) :=
    back.whole (stops_of_mem (by decide) _) rfl
  rw [whole, readHead_printed (by decide) (stops_of_mem (by decide) _),
    readWord_function fun p member => (areVariables p member).toIsName, inside]
  rfl

end ReadsBack

theorem readsBack {e : Expr} (bound : Bound e) : ReadsBack e := by
  induction bound with
  | bool b =>
    refine .of_head fun t stops _ => ?_
    rw [print, enclose_zero]
    exact readHead_bool b stops
  | number n =>
    refine .of_head fun t stops _ => ?_
    rw [print, enclose_zero]
    exact readHead_number n stops
  | string s =>
    refine .of_head fun t _ _ => ?_
    rw [print, enclose_zero]
    exact readHead_quote s t
  | regex source nonempty closed =>
    refine .of_head fun t _ _ => ?_
    rw [print, enclose_zero, if_neg nonempty]
    simpa using readHead_regex closed t
  | ident name isVariable =>
    refine .of_head fun t stops _ => ?_
    rw [print, enclose_zero]
    exact readHead_ident isVariable stops
  | binary op left right boundLeft boundRight backLeft backRight =>
    exact .binary boundLeft boundRight backLeft backRight
  | unary op operand bound back => exact .unary op bound back
  | call callee args bound boundArgs back backArgs => exact .call bound boundArgs back backArgs
  | construct callee args apart bound boundArgs back backArgs => exact .construct apart bound boundArgs back backArgs
  | member target property bound isName back => exact .member bound isName back
  | subscript target index bound _ back backIndex => exact .subscript bound back backIndex
  | conditional test consequent alternative bound boundThen boundElse back backThen backElse =>
    exact .conditional bound boundThen boundElse back backThen backElse
  | function params body areVariables _ back => exact .function areVariables back

/-- What is printed is read as what it was, if every `new` stands in front of its own call. -/
theorem readExpr_bound {e : Expr} (bound : Bound e) : readExpr 0 (render e) = some (e, []) := by
  have read := (readsBack bound).whole (t := []) (Text.stops_nil _) rfl
  rwa [List.append_nil] at read

/-- What is printed is read as what it was. -/
theorem readExpr_render {e : Expr} (plain : Plain e) : readExpr 0 (render e) = some (e, []) :=
  readExpr_bound plain.bound

/-- No two expressions are printed alike. -/
theorem render_injective {a b : Expr} (plain : Plain a) (plain' : Plain b) (same : render a = render b) : a = b := by
  have read := readExpr_render plain
  rw [same, readExpr_render plain'] at read
  cases read
  rfl

/-- The parentheses of a right operand are what tells these two apart. -/
example : render (.binary .sub (name "a") (.binary .sub (name "b") (name "c"))) = "a - (b - c)".toList ∧
    render (.binary .sub (.binary .sub (name "a") (name "b")) (name "c")) = "a - b - c".toList := by decide

/-- A test of a source with a slash is printed like the call that it stands for. -/
theorem render_injective_regexTest :
    render (regexTest (name "host") "a/b".toList) =
      render (.call (.member (.regex "a\\/b".toList) "test".toList) [.ident "host".toList]) ∧
    regexTest (name "host") "a/b".toList =
      .call (.member (.regex "a\\/b".toList) "test".toList) [.ident "host".toList] := by
  have isVariable : IsVariable "host".toList := by
    refine ⟨⟨by decide, Text.forall_mem_of_all (by decide), by decide⟩, by decide⟩
  have isName : IsName "test".toList := ⟨by decide, Text.forall_mem_of_all (by decide), by decide⟩
  have plain : Plain (.call (.member (.regex "a\\/b".toList) "test".toList) [.ident "host".toList]) := by
    refine .call _ _ (.member _ _ (.regex _ (by decide) (by decide)) isName) ?_
    intro e member
    rw [List.mem_singleton.1 member]
    exact .ident _ isVariable
  exact ⟨rfl, render_injective plain plain rfl⟩

end ProxyRouting.Expr
