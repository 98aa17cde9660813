import ProxyRouting.Proofs.Expr.Reader
import ProxyRouting.Proofs.Text.Cut
import ProxyRouting.Proofs.Text.Escapes

/-!
Literals and comments in the text of a script. A script is taken apart as a browser does it: whatever a quote, a
slash or the opening of a comment begins goes on to the first thing that ends it. In the text of an expression this
finds just the literals and comments of the expression (`literals_render`), so that nothing that is written in one of
them is taken for anything else, once no name has such marks in it, and what stands between the slashes of a regular
expression is shut against them.
-/
namespace ProxyRouting
namespace Text

/-- The text up to a mark that is not escaped, and what is behind it. -/
def upTo (mark : Char) : Bool → Text → Option (Text × Text)
  | _, [] => none
  | escaped, c :: t =>
    if c = mark ∧ escaped = false then some ([], t)
    else (upTo mark (c = '\\' ∧ escaped = false) t).map fun found => (c :: found.1, found.2)

/-- A text that is shut against a mark reaches up to the next one. -/
theorem upTo_shut {mark : Char} {escaped : Bool} {body : Text} (shut : Shut mark escaped body) (t : Text) :
    upTo mark escaped (body ++ mark :: t) = some (body, t) := by
  induction body generalizing escaped with
  | nil =>
    have unescaped : escaped = false := shut
    rw [List.nil_append, upTo, if_pos ⟨rfl, unescaped⟩]
  | cons c body ih =>
    obtain ⟨marks, shut⟩ := shut
    have other : ¬ (c = mark ∧ escaped = false) := by
      rintro ⟨same, unescaped⟩
      rw [marks same] at unescaped
      cases unescaped
    rw [List.cons_append, upTo, if_neg other, ih shut]
    rfl

end Text

/-- What stands between the marks of a literal or of a comment. -/
inductive Literal
  | comment (body : Text)
  | regex (body : Text)
  | string (body : Text)
  deriving DecidableEq, Repr

/-- Nothing in the body ends the literal. A mark in it is escaped by an odd number of backslashes, its end is not
    escaped, and a string has no control characters. -/
def Literal.Contained : Literal → Prop
  | .comment body => ¬ "*/".toList <:+: body
  | .regex body => body ≠ [] ∧ (∀ before after, body = before ++ '/' :: after → Text.backslashes before % 2 = 1) ∧
      Text.backslashes body % 2 = 0
  | .string body => (∀ before after, body = before ++ '"' :: after → Text.backslashes before % 2 = 1) ∧
      Text.backslashes body % 2 = 0 ∧ ∀ c ∈ body, 0x20 ≤ c.toNat

/-- The literals and comments of a script, from left to right, if all of them end. -/
def scriptLiterals (t : Text) : Option (List Literal) :=
  match t with
  | [] => some []
  | '"' :: t => Expr.readOn t (Text.upTo '"' false t) fun body rest _ => (scriptLiterals rest).map (.string body :: ·)
  | '/' :: '*' :: t =>
    Expr.readOn t (Text.cut? "*/".toList t) fun body rest _ => (scriptLiterals rest).map (.comment body :: ·)
  | '/' :: t => Expr.readOn t (Text.upTo '/' false t) fun body rest _ => (scriptLiterals rest).map (.regex body :: ·)
  | _ :: t => scriptLiterals t
termination_by t.length

/-- A text has these literals wherever it stands in a script. -/
def Shows (s : Text) (found : List Literal) : Prop :=
  ∀ t, scriptLiterals (s ++ t) = (scriptLiterals t).map (found ++ ·)

theorem shows_nil : Shows [] [] := fun t => by simp

theorem shows_append {s t : Text} {found found' : List Literal} (first : Shows s found) (second : Shows t found') :
    Shows (s ++ t) (found ++ found') := by
  intro u
  rw [List.append_assoc, first, second, Option.map_map]
  congr 1
  funext rest
  simp

theorem shows_after {s t : Text} {found : List Literal} (first : Shows s []) (second : Shows t found) :
    Shows (s ++ t) found := shows_append first second

theorem shows_before {s t : Text} {found : List Literal} (first : Shows s found) (second : Shows t []) :
    Shows (s ++ t) found := by
  have both := shows_append first second
  rwa [List.append_nil] at both

/-- A character that begins no literal. -/
def Bare (c : Char) : Prop := c ≠ '"' ∧ c ≠ '/'

instance (c : Char) : Decidable (Bare c) := inferInstanceAs (Decidable (_ ∧ _))

theorem shows_bare {s : Text} (bare : ∀ c ∈ s, Bare c) : Shows s [] := by
  induction s with
  | nil => exact shows_nil
  | cons c s ih =>
    obtain ⟨noQuote, noSlash⟩ := bare c List.mem_cons_self
    have skipped (t : Text) : scriptLiterals (c :: t) = scriptLiterals t := by
      conv_lhs => unfold scriptLiterals
      split
      · next same => cases same
      · next same => cases same; exact absurd rfl noQuote
      · next same => cases same; exact absurd rfl noSlash
      · next same => cases same; exact absurd rfl noSlash
      · next same => cases same; rfl
    intro t
    rw [List.cons_append, skipped]
    exact ih (fun d member => bare d (List.mem_cons_of_mem _ member)) t

theorem shows_mark (s : String) (bare : s.toList.all (fun c => decide (Bare c)) = true) : Shows s.toList [] :=
  shows_bare (Text.forall_mem_of_all bare)

theorem shows_string {body : Text} (shut : Text.Shut '"' false body) : Shows ('"' :: (body ++ ['"'])) [.string body] := by
  intro t
  have whole : '"' :: (body ++ ['"']) ++ t = '"' :: (body ++ '"' :: t) := by simp
  rw [whole, scriptLiterals, Text.upTo_shut shut, Expr.readOn_some (by simp; omega)]
  rfl

theorem shows_regex {body : Text} (nonempty : body ≠ []) (noStar : body.head? ≠ some '*') (shut : Text.Shut '/' false body) :
    Shows ('/' :: (body ++ ['/'])) [.regex body] := by
  intro t
  have whole : '/' :: (body ++ ['/']) ++ t = '/' :: (body ++ '/' :: t) := by simp
  rw [whole, scriptLiterals, Text.upTo_shut shut, Expr.readOn_some (by simp; omega)]
  · rfl
  · intro u same
    cases body with
    | nil => exact nonempty rfl
    | cons c body =>
      cases same
      exact noStar rfl

/-- A text without an end of a comment reaches up to the next one. -/
theorem cut?_comment {body : Text} (closed : ¬ "*/".toList <:+: body) (t : Text) :
    Text.cut? "*/".toList (body ++ "*/".toList ++ t) = some (body, t) := by
  induction body with
  | nil => rfl
  | cons c body ih =>
    rw [List.infix_cons_iff, not_or] at closed
    have later : Text.dropLead? "*/".toList (c :: (body ++ "*/".toList ++ t)) = none := by
      by_contra found
      obtain ⟨rest, lead⟩ := Option.ne_none_iff_exists'.1 found
      have starts := Text.dropLead?_eq_some.1 lead
      cases body with
      | nil => cases starts
      | cons d body =>
        cases starts
        exact closed.1 ⟨body, rfl⟩
    rw [List.cons_append, List.cons_append, Text.cut?, later, ih closed.2]
    rfl

theorem shows_comment {body : Text} (closed : ¬ "*/".toList <:+: body) :
    Shows ("/*".toList ++ body ++ "*/".toList) [.comment body] := by
  intro t
  have whole : "/*".toList ++ body ++ "*/".toList ++ t = '/' :: '*' :: (body ++ "*/".toList ++ t) := by simp
  rw [whole, scriptLiterals, cut?_comment closed, Expr.readOn_some (by simp; omega)]
  rfl

namespace Expr

theorem head_defuse (t : Text) : (defuse t).head? = t.head? := by
  unfold defuse
  split <;> rfl

/-- What a comment is written with does not end it. -/
theorem closed_defuse (t : Text) : ¬ "*/".toList <:+: ' ' :: (defuse t ++ [' ']) := by
  have apart {c : Char} {u : Text} (other : c ≠ '*' ∨ u.head? ≠ some '/') (closed : ¬ "*/".toList <:+: u) :
      ¬ "*/".toList <:+: c :: u := by
    rw [List.infix_cons_iff, not_or]
    refine ⟨?_, closed⟩
    rintro ⟨rest, lead⟩
    have ends : '*' :: '/' :: rest = c :: u := lead
    cases ends
    simp at other
  refine apart (.inl (by decide)) ?_
  fun_induction defuse t with
  | case1 t ih => exact apart (.inr (by simp)) (apart (.inl (by decide)) (apart (.inl (by decide)) ih))
  | case2 c t unbroken ih =>
    have other : c ≠ '*' ∨ (defuse t ++ [' ']).head? ≠ some '/' := by
      by_cases star : c = '*'
      · refine .inr ?_
        rw [List.head?_append, head_defuse]
        cases t with
        | nil => simp
        | cons d t =>
          intro slash
          cases slash
          exact unbroken t star rfl
      · exact .inl star
    exact apart other ih
  | case3 => exact apart (.inl (by decide)) (by simp)

/-- The characters of a number begin no literal. -/
theorem bare_ofInt (n : Int) : ∀ c ∈ Text.ofInt n, Bare c := by
  have digits (n : Nat) : ∀ c ∈ Text.ofNat n, Bare c := by
    intro c member
    have digit := Text.isDigit_of_mem_ofNat c member
    constructor <;> rintro rfl <;> exact absurd digit (by decide)
  cases n with
  | ofNat n => exact digits n
  | negSucc n => exact List.forall_mem_cons.2 ⟨by decide, digits (n + 1)⟩

theorem shows_binarySymbol (op : BinaryOp) : Shows op.symbol [] := by
  refine shows_bare ?_
  cases op <;> exact Text.forall_mem_of_all (by decide)

theorem shows_unarySymbol (op : UnaryOp) : Shows (op.symbol ++ (if op = .typeOf then [' '] else [])) [] := by
  refine shows_bare ?_
  cases op <;> exact Text.forall_mem_of_all (by decide)

theorem shows_single {c : Char} (bare : Bare c) : Shows [c] [] := shows_bare (List.forall_mem_singleton.2 bare)

/-- A character that begins no literal stands in front of what does. -/
theorem shows_cons {c : Char} (bare : Bare c) {t : Text} {found : List Literal} (shows : Shows t found) :
    Shows (c :: t) found :=
  shows_after (shows_single bare) shows

mutual

/-- The literals and comments of an expression, in the order in which they are printed. -/
def literals : Expr → List Literal
  | .bool _ => []
  | .number _ => []
  | .string t => [.string (t.flatMap Text.escapeChar)]
  | .regex source => [.regex (if source = [] then "(?:)".toList else source)]
  | .ident _ => []
  | .binary _ left right => literals left ++ literals right
  | .unary _ operand => literals operand
  | .call callee args => literals callee ++ literalsOfArgs args
  | .construct callee args => literals callee ++ literalsOfArgs args
  | .member target _ => literals target
  | .subscript target index => literals target ++ literals index
  | .conditional test consequent alternative => literals test ++ literals consequent ++ literals alternative
  | .function _ body => literals body
  | .commented comment e => .comment (' ' :: (defuse comment ++ [' '])) :: literals e

/-- The literals and comments of arguments. -/
def literalsOfArgs : List Expr → List Literal
  | [] => []
  | e :: es => literals e ++ literalsOfArgs es

end

/-- No name begins a literal, and no source of a regular expression ends its literal or makes a comment of it. -/
inductive Tame : Expr → Prop
  | bool (b : Bool) : Tame (.bool b)
  | number (n : Int) : Tame (.number n)
  | string (t : Text) : Tame (.string t)
  | regex (source : Text) (noStar : source.head? ≠ some '*') (shut : Text.Shut '/' false source) : Tame (.regex source)
  | ident (name : Text) (bare : ∀ c ∈ name, Bare c) : Tame (.ident name)
  | binary (op : BinaryOp) {left right : Expr} (tameLeft : Tame left) (tameRight : Tame right) : Tame (.binary op left right)
  | unary (op : UnaryOp) {operand : Expr} (tame : Tame operand) : Tame (.unary op operand)
  | call {callee : Expr} {args : List Expr} (tame : Tame callee) (tameArgs : ∀ e ∈ args, Tame e) : Tame (.call callee args)
  | construct {callee : Expr} {args : List Expr} (tame : Tame callee) (tameArgs : ∀ e ∈ args, Tame e) :
      Tame (.construct callee args)
  | member {target : Expr} (property : Text) (tame : Tame target) (bare : ∀ c ∈ property, Bare c) :
      Tame (.member target property)
  | subscript {target index : Expr} (tame : Tame target) (tameIndex : Tame index) : Tame (.subscript target index)
  | conditional {test consequent alternative : Expr} (tame : Tame test) (tameThen : Tame consequent)
      (tameElse : Tame alternative) : Tame (.conditional test consequent alternative)
  | function (params : List Text) {body : Expr} (bare : ∀ c ∈ Text.join ", ".toList params, Bare c) (tame : Tame body) :
      Tame (.function params body)
  | commented (comment : Text) {e : Expr} (tame : Tame e) : Tame (.commented comment e)

theorem shows_enclose {t : Text} {found : List Literal} (needed : Bool) (shows : Shows t found) :
    Shows (enclose needed t) found := by
  unfold enclose
  split
  · exact shows_before (shows_cons (by decide) shows) (shows_single (by decide))
  · exact shows

theorem shows_args {es : List Expr} (each : ∀ e ∈ es, ∀ outer, Shows (print outer e) (literals e)) :
    Shows (printArgs es) (literalsOfArgs es) := by
  induction es with
  | nil => exact shows_nil
  | cons e es ih =>
    have first := each e List.mem_cons_self conditionalPrecedence
    have others := ih fun f member => each f (List.mem_cons_of_mem _ member)
    cases es with
    | nil =>
      rw [printArgs, literalsOfArgs, literalsOfArgs, List.append_nil]
      exact first
    | cons f fs =>
      rw [printArgs, literalsOfArgs]
      · exact shows_append (shows_before first (shows_mark ", " (by decide))) others
      · simp

theorem shows_print {e : Expr} (tame : Tame e) (outer : Nat) : Shows (print outer e) (literals e) := by
  induction tame generalizing outer with
  | bool b =>
    rw [print, literals]
    refine shows_enclose _ (shows_bare ?_)
    cases b <;> exact Text.forall_mem_of_all (by decide)
  | number n =>
    rw [print, literals]
    exact shows_enclose _ (shows_bare (bare_ofInt n))
  | string t =>
    rw [print, literals]
    exact shows_enclose _ (shows_string (Text.shut_quoted t))
  | regex source noStar shut =>
    rw [print, literals]
    refine shows_enclose _ ?_
    by_cases empty : source = []
    · rw [if_pos empty]
      exact shows_regex (by simp) (by decide) (by simp [Text.Shut])
    · rw [if_neg empty]
      exact shows_regex empty noStar shut
  | ident name bare =>
    rw [print, literals]
    exact shows_enclose _ (shows_bare bare)
  | binary op _ _ left right =>
    rw [print, literals]
    have symbol : Shows (' ' :: op.symbol) [] := shows_cons (by decide) (shows_binarySymbol op)
    exact shows_enclose _ (shows_append (shows_before (left _) symbol) (shows_cons (by decide) (right _)))
  | unary op _ operand =>
    rw [print, literals]
    exact shows_enclose _ (shows_after (shows_unarySymbol op) (operand _))
  | call _ _ callee args =>
    rw [print, literals]
    have listed := shows_args args
    exact shows_enclose _ (shows_before (shows_append (callee _) (shows_cons (by decide) listed)) (shows_single (by decide)))
  | construct _ _ callee args =>
    rw [print, literals]
    have listed := shows_args args
    have named := shows_after (shows_mark "new " (by decide)) (callee callPrecedence)
    exact shows_enclose _ (shows_before (shows_append named (shows_cons (by decide) listed)) (shows_single (by decide)))
  | member property _ bare target =>
    rw [print, literals]
    exact shows_enclose _ (shows_before (shows_enclose _ (target _)) (shows_cons (by decide) (shows_bare bare)))
  | subscript _ _ target index =>
    rw [print, literals]
    have opened := shows_cons (c := '[') (by decide) (index 0)
    exact shows_enclose _ (shows_before (shows_append (shows_enclose _ (target _)) opened) (shows_single (by decide)))
  | conditional _ _ _ test consequent alternative =>
    rw [print, literals]
    have asked := shows_before (test (conditionalPrecedence + 1)) (shows_mark " ? " (by decide))
    have chosen := shows_before (shows_append asked (consequent conditionalPrecedence)) (shows_mark " : " (by decide))
    exact shows_enclose _ (shows_append chosen (alternative _))
  | function params bare _ body =>
    rw [print, literals]
    have lead := shows_after (shows_mark "function (" (by decide)) (shows_bare bare)
    have opened := shows_before lead (shows_mark ") \x7b return " (by decide))
    exact shows_enclose _ (shows_before (shows_after opened (body 0)) (shows_mark "; \x7d" (by decide)))
  | commented comment _ e =>
    have spelled (t : Text) : "/* ".toList ++ defuse comment ++ " */ ".toList ++ t =
        "/*".toList ++ (' ' :: (defuse comment ++ [' '])) ++ "*/".toList ++ ' ' :: t := by simp
    rw [print_commented, literals, spelled]
    exact shows_append (shows_comment (closed_defuse comment)) (shows_cons (by decide) (e outer))

/-- In the text of an expression nothing but its literals and comments is taken for one. -/
theorem literals_render {e : Expr} (tame : Tame e) : scriptLiterals e.render = some e.literals := by
  have whole := shows_print tame 0 []
  rw [List.append_nil] at whole
  rw [render, whole, scriptLiterals]
  simp

theorem contained_string (t : Text) : (Literal.string (t.flatMap Text.escapeChar)).Contained := by
  obtain ⟨marks, even⟩ := Text.shut_iff.1 (Text.shut_quoted t)
  exact ⟨marks, even, fun c member => Text.printable_quoted member⟩

theorem contained_regex {source : Text} (shut : Text.Shut '/' false source) :
    (Literal.regex (if source = [] then "(?:)".toList else source)).Contained := by
  by_cases empty : source = []
  · rw [if_pos empty]
    obtain ⟨marks, even⟩ := Text.shut_iff.1 (show Text.Shut '/' false "(?:)".toList by simp [Text.Shut])
    exact ⟨by simp, marks, even⟩
  · rw [if_neg empty]
    obtain ⟨marks, even⟩ := Text.shut_iff.1 shut
    exact ⟨empty, marks, even⟩

theorem contained_args {es : List Expr} (each : ∀ e ∈ es, ∀ l ∈ literals e, l.Contained) :
    ∀ l ∈ literalsOfArgs es, l.Contained := by
  induction es with
  | nil => exact List.forall_mem_nil _
  | cons e es ih =>
    rw [literalsOfArgs]
    refine List.forall_mem_append.2 ⟨each e List.mem_cons_self, ih ?_⟩
    exact fun f member => each f (List.mem_cons_of_mem _ member)

/-- Nothing ends a literal of an expression before its end. -/
theorem contained_literals {e : Expr} (tame : Tame e) : ∀ l ∈ e.literals, l.Contained := by
  induction tame with
  | bool | number | ident => exact List.forall_mem_nil _
  | string t => exact List.forall_mem_singleton.2 (contained_string t)
  | regex source _ shut => exact List.forall_mem_singleton.2 (contained_regex shut)
  | binary _ _ _ left right => exact List.forall_mem_append.2 ⟨left, right⟩
  | unary _ _ operand => exact operand
  | call _ _ callee args => exact List.forall_mem_append.2 ⟨callee, contained_args args⟩
  | construct _ _ callee args => exact List.forall_mem_append.2 ⟨callee, contained_args args⟩
  | member _ _ _ target => exact target
  | subscript _ _ target index => exact List.forall_mem_append.2 ⟨target, index⟩
  | conditional _ _ _ test consequent alternative =>
    exact List.forall_mem_append.2 ⟨List.forall_mem_append.2 ⟨test, consequent⟩, alternative⟩
  | function _ _ _ body => exact body
  | commented comment _ e => exact List.forall_mem_cons.2 ⟨closed_defuse comment, e⟩

end Expr
end ProxyRouting
