import ProxyRouting.Proofs.Expr.Literals
import ProxyRouting.Proofs.Regex.Endings
import ProxyRouting.Proofs.Regex.Slashes
import ProxyRouting.Proofs.RuleList.Predicate

/-!
The text of a predicate holds no literals but those that its conditions ask for, and none of them is ended by what is
written in it (`literals_predicate`): not by the text of a condition in a comment, by a source between slashes, nor by
a pattern between quotes. All that a user writes gets into a script in one of these three ways.
-/
namespace ProxyRouting
namespace Expr

theorem tame_name (s : String) (bare : s.toList.all (fun c => decide (Bare c)) = true) : Tame (name s) :=
  .ident _ (Text.forall_mem_of_all bare)

theorem tame_method {target : Expr} (tame : Tame target) (property : String)
    (bare : property.toList.all (fun c => decide (Bare c)) = true) {args : List Expr} (tameArgs : ∀ e ∈ args, Tame e) :
    Tame (target.method property args) := .call (.member _ tame (Text.forall_mem_of_all bare)) tameArgs

theorem tame_withComment {e : Expr} (tame : Tame e) (comment : Text) : Tame (e.withComment comment) := by
  unfold withComment
  split
  · exact tame
  · exact .commented comment tame

theorem tame_foldl (op : BinaryOp) {e : Expr} {es : List Expr} (tame : Tame e) (each : ∀ e ∈ es, Tame e) :
    Tame (es.foldl (.binary op) e) := by
  induction es generalizing e with
  | nil => exact tame
  | cons f es ih =>
    obtain ⟨first, others⟩ := List.forall_mem_cons.1 each
    exact ih (.binary op tame first) others

theorem tame_allOf {es : List Expr} (each : ∀ e ∈ es, Tame e) : Tame (allOf es) := by
  cases es with
  | nil => exact .bool true
  | cons e es => exact tame_foldl .and (each e List.mem_cons_self) fun f member => each f (List.mem_cons_of_mem _ member)

theorem tame_anyOf {es : List Expr} (each : ∀ e ∈ es, Tame e) : Tame (anyOf es) := by
  cases es with
  | nil => exact .bool false
  | cons e es => exact tame_foldl .or (each e List.mem_cons_self) fun f member => each f (List.mem_cons_of_mem _ member)

/-- The source of a search gives a pattern, so its literal ends where it should. -/
theorem tame_search (search : Regex.Search) (subject : String)
    (bare : subject.toList.all (fun c => decide (Bare c)) = true) : Tame (search.toExpr subject) := by
  obtain ⟨p, compiled⟩ : ∃ p, Regex.compile search.source = .ok p := by
    cases search with
    | compiled source p compiled => exact ⟨p, compiled⟩
    | never => exact ⟨_, Regex.compile_never⟩
  have literal : Tame (ofRegex search.source) :=
    .regex _ (Regex.head_of_compile compiled) (Regex.shut_of_compile compiled)
  exact tame_method literal "test" (by decide) (List.forall_mem_singleton.2 (tame_name subject bare))

theorem tame_between {value : Expr} (tame : Tame value) (min max : Int) (comment : Option Text) :
    Tame (between value min max comment) := by
  unfold between
  split
  · exact tame_withComment (.binary _ tame (.number min)) _
  · split
    · exact tame_withComment (.bool false) _
    · split
      · refine tame_withComment (.binary _ (tame_method (.string _) "charCodeAt" (by decide) ?_) (.number 0)) _
        refine List.forall_mem_singleton.2 ?_
        unfold fromBound
        split
        · exact tame
        · exact .binary _ tame (.number min)
      · have low := Tame.binary .le (tame_name "min" (by decide)) (tame_name "value" (by decide))
        have high := Tame.binary .le (tame_name "value" (by decide)) (tame_name "max" (by decide))
        refine tame_withComment (.call (.function _ (Text.forall_mem_of_all (by decide)) (.binary _ low high)) ?_) _
        simp only [List.forall_mem_cons]
        exact ⟨tame, .number min, .number max, List.forall_mem_nil _⟩

end Expr
open ProxyRouting.Expr

theorem tame_networkExpr (n : Ip.Network) : Tame n.toExpr := by
  have host : Tame (name "host") := tame_name "host" (by decide)
  have family : Tame n.familyExpr := by
    unfold Ip.Network.familyExpr
    simp only
    split
    · have length : Tame (.member (name "host") "length".toList) := .member _ host (Text.forall_mem_of_all (by decide))
      exact .binary _ (.subscript host (.binary _ length (.number 1))) (.number 0)
    · exact .binary _ (tame_method host "indexOf" (by decide) (List.forall_mem_singleton.2 (.string _))) (.number 0)
  have byMask : Tame (.call (name "isInNet") [name "host", .string n.address.toText, .string n.mask.toText]) := by
    refine .call (tame_name "isInNet" (by decide)) ?_
    simp only [List.forall_mem_cons]
    exact ⟨host, .string _, .string _, List.forall_mem_nil _⟩
  have known : Tame (name "isInNetEx") := tame_name "isInNetEx" (by decide)
  have byLength : Tame (.call (name "isInNetEx") [name "host", .string n.toText]) := by
    refine .call known ?_
    simp only [List.forall_mem_cons]
    exact ⟨host, .string _, List.forall_mem_nil _⟩
  unfold Ip.Network.toExpr
  simp only
  split
  · exact family
  · split
    · exact .binary _ family byMask
    · exact .binary _ family (.conditional (.binary _ (.unary _ known) (.string _)) byLength byMask)

theorem tame_bypassExpr (b : Bypass) : Tame b.toExpr := by
  have host : Tame (name "host") := tame_name "host" (by decide)
  have parts : Tame (.allOf (b.scheme.toList.map Bypass.schemeExpr ++ b.hostExprs)) := by
    refine tame_allOf fun e member => ?_
    rcases List.mem_append.1 member with scheme | host
    · obtain ⟨text, _, rfl⟩ := List.mem_map.1 scheme
      exact .binary _ (tame_name "scheme" (by decide)) (.string text)
    · unfold Bypass.hostExprs at host
      split at host
      · obtain rfl := List.mem_singleton.1 host
        exact tame_search _ "host" (by decide)
      · obtain rfl := List.mem_singleton.1 host
        exact tame_networkExpr _
      · cases host
  unfold Bypass.toExpr
  split
  · exact tame_search _ "url" (by decide)
  · have dotless := tame_method host "indexOf" (by decide) (List.forall_mem_singleton.2 (Tame.string ['.']))
    exact .binary _ (.binary _ (.binary _ host (.string _)) (.binary _ host (.string _))) (.binary _ dotless (.number 0))
  · exact parts

theorem tame_nowMethod (method : String) (bare : method.toList.all (fun c => decide (Bare c)) = true) :
    Tame (nowMethod method) :=
  tame_method (.construct (tame_name "Date" (by decide)) (List.forall_mem_nil _)) method bare (List.forall_mem_nil _)

/-- Whatever a user writes in a condition, no name of its expression has it, and no source of a search ends a literal. -/
theorem tame_toExpr (a : Analysis) : Tame a.toExpr := by
  cases a with
  | constant b => exact .bool b
  | url search => exact tame_search search "url" (by decide)
  | host search => exact tame_search search "host" (by decide)
  | bypass entry => exact tame_bypassExpr entry
  | keyword t =>
    have found := tame_method (tame_name "url" (by decide)) "indexOf" (by decide) (List.forall_mem_singleton.2 (.string t))
    exact .binary _ (.binary _ (tame_name "scheme" (by decide)) (.string _)) (.binary _ found (.number 0))
  | ip network => exact tame_networkExpr network
  | hostLevels min max =>
    have pieces := tame_method (tame_name "host" (by decide)) "split" (by decide) (List.forall_mem_singleton.2 (.string ['.']))
    exact tame_between (.member _ pieces (Text.forall_mem_of_all (by decide))) _ _ _
  | weekday rule =>
    show Tame rule.toExpr
    have day := tame_nowMethod "getDay" (by decide)
    unfold WeekdayRule.toExpr
    split
    · exact .binary _ (tame_method (.string _) "charCodeAt" (by decide) (List.forall_mem_singleton.2 day)) (.number 64)
    · exact tame_between day _ _ _
  | time first last => exact tame_between (tame_nowMethod "getHours" (by decide)) _ _ _

namespace RuleList

theorem tame_predicate {cs : RuleList} {p : Expr} (compiled : predicate cs = .ok p) : Tame p := by
  obtain ⟨es, each, rfl⟩ := predicate_ok_iff.1 compiled
  refine tame_anyOf fun e member => ?_
  obtain ⟨c, _, commented⟩ := (mem_of_forall₂ each).1 e member
  obtain ⟨a, _, rfl⟩ := analysis_of_annotated commented
  exact tame_withComment (tame_toExpr a) _

/-- The text of a predicate has just the comments, sources and strings of the predicate in it, and each of them goes
    on to its end: no comment has an end in it, no source a bare slash, and no string a bare quote. -/
theorem literals_predicate (cs : RuleList) (p : Expr) (compiled : predicate cs = .ok p) :
    scriptLiterals p.render = some p.literals ∧ ∀ l ∈ p.literals, l.Contained := by
  have tame := tame_predicate compiled
  exact ⟨literals_render tame, contained_literals tame⟩

theorem literals_predicate_of_two : ∃ p, predicate [.urlRegex "a/b\\/c".toList, .keyword "\"*/".toList] = .ok p ∧
    p.literals = [.comment " UrlRegex: a/b\\/c ".toList, .regex "a\\/b\\/c".toList, .comment " Keyword: \"* / ".toList,
      .string "http".toList, .string "\\\"*/".toList] ∧
    scriptLiterals p.render = some p.literals ∧ ∀ l ∈ p.literals, l.Contained := by
  obtain ⟨p, compiled, found⟩ : ∃ p, predicate [.urlRegex "a/b\\/c".toList, .keyword "\"*/".toList] = .ok p ∧
      p.literals = [.comment " UrlRegex: a/b\\/c ".toList, .regex "a\\/b\\/c".toList,
        .comment " Keyword: \"* / ".toList, .string "http".toList, .string "\\\"*/".toList] :=
    ⟨_, rfl, by decide +kernel⟩
  exact ⟨p, compiled, found, literals_predicate _ p compiled⟩

end RuleList
end ProxyRouting
