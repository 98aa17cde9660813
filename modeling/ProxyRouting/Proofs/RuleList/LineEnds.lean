import ProxyRouting.Proofs.Condition.LineEnds
import ProxyRouting.Proofs.RuleList.Script
import ProxyRouting.Proofs.RuleList.TextForm

/-!
Line ends in the script of a list. A line of a list ends in a line feed and nothing else, so its condition may have
another character in it that ends a line of a script. No escape takes it away: it stands in a literal of a regular
expression, which a script cannot have on two lines, just if some condition carries it there (`lineEnds_predicate`).
-/
namespace ProxyRouting
open Text Regex

namespace Expr

/-- What stands between the slashes of the regular expressions among some literals. -/
def regexBodies (found : List Literal) : List Text :=
  found.filterMap fun
    | .regex body => some body
    | _ => none

theorem mem_regexBodies {found : List Literal} {body : Text} : body ∈ regexBodies found ↔ .regex body ∈ found := by
  rw [regexBodies, List.mem_filterMap]
  constructor
  · rintro ⟨l, member, same⟩
    cases l with
    | regex source =>
      cases same
      exact member
    | _ => cases same
  · intro member
    exact ⟨.regex body, member, rfl⟩

@[simp] theorem regexBodies_append (one two : List Literal) :
    regexBodies (one ++ two) = regexBodies one ++ regexBodies two := List.filterMap_append

@[simp] theorem regexBodies_nil : regexBodies [] = [] := rfl

@[simp] theorem regexBodies_comment (body : Text) (found : List Literal) :
    regexBodies (.comment body :: found) = regexBodies found := rfl

@[simp] theorem regexBodies_string (body : Text) (found : List Literal) :
    regexBodies (.string body :: found) = regexBodies found := rfl

/-- A source between the slashes of a literal. -/
def regexBody (source : Text) : Text :=
  if escapeSlashes source = [] then "(?:)".toList else escapeSlashes source

theorem bodies_search (search : Search) (subject : String) :
    regexBodies (search.toExpr subject).literals = [regexBody search.source] := rfl

@[simp] theorem bodies_withComment (comment : Text) (e : Expr) :
    regexBodies (e.withComment comment).literals = regexBodies e.literals := by
  unfold withComment
  split <;> simp [literals]

theorem bodies_foldl (op : BinaryOp) (e : Expr) (es : List Expr) :
    regexBodies (es.foldl (.binary op) e).literals = regexBodies e.literals ++ es.flatMap (regexBodies ·.literals) := by
  induction es generalizing e with
  | nil => simp
  | cons f es ih => simp [ih, literals]

theorem bodies_anyOf (es : List Expr) : regexBodies (anyOf es).literals = es.flatMap (regexBodies ·.literals) := by
  cases es with
  | nil => rfl
  | cons e es => simp [anyOf, bodies_foldl]

theorem bodies_allOf (es : List Expr) : regexBodies (allOf es).literals = es.flatMap (regexBodies ·.literals) := by
  cases es with
  | nil => rfl
  | cons e es => simp [allOf, bodies_foldl]

theorem bodies_between {value : Expr} (none : regexBodies value.literals = []) (min max : Int) (comment : Option Text) :
    regexBodies (between value min max comment).literals = [] := by
  unfold between
  split
  · simp [literals, none]
  · split
    · simp [literals]
    · split
      · simp [probe, method, fromBound, literals, literalsOfArgs]
        split <;> simp [literals, none]
      · simp [rangeCall, name, literals, literalsOfArgs, none]

end Expr
open ProxyRouting.Expr

theorem bodies_networkExpr (n : Ip.Network) : regexBodies n.toExpr.literals = [] := by
  unfold Ip.Network.toExpr Ip.Network.familyExpr
  simp only
  split_ifs <;> rfl

theorem bodies_bypassExpr (b : Bypass) : regexBodies b.toExpr.literals = b.tested.map (regexBody ·.source) := by
  obtain ⟨scheme, network, host, port, url, normalized⟩ := b
  have scheme : scheme.toList.flatMap (fun s => regexBodies (Bypass.schemeExpr s).literals) = [] := by
    simp [Bypass.schemeExpr, literals, name]
  have parts (b : Bypass) (found : b.scheme.toList.flatMap (fun s => regexBodies (Bypass.schemeExpr s).literals) = []) :
      regexBodies (allOf (b.scheme.toList.map Bypass.schemeExpr ++ b.hostExprs)).literals =
        b.hostExprs.flatMap (regexBodies ·.literals) := by
    rw [bodies_allOf, List.flatMap_append, List.flatMap_map, found, List.nil_append]
  cases url with
  | some search => exact bodies_search search "url"
  | none =>
    cases host with
    | loopback => rfl
    | pattern search => exact (parts _ scheme).trans (List.flatMap_singleton _ _)
    | any =>
      refine (parts _ scheme).trans ?_
      cases network with
      | none => rfl
      | some n => exact (List.flatMap_singleton _ _).trans (bodies_networkExpr n)

/-- The regular expressions of a condition's expression are those that scripts search for on its behalf. -/
theorem bodies_toExpr (a : Analysis) : regexBodies a.toExpr.literals = a.tested.map (regexBody ·.source) := by
  cases a with
  | constant b => rfl
  | url search => exact bodies_search search "url"
  | host search => exact bodies_search search "host"
  | bypass entry => exact bodies_bypassExpr entry
  | keyword t => rfl
  | ip network => exact bodies_networkExpr network
  | hostLevels min max => exact bodies_between rfl _ _ _
  | weekday rule =>
    show regexBodies rule.toExpr.literals = []
    unfold WeekdayRule.toExpr
    split
    · rfl
    · exact bodies_between rfl _ _ _
  | time first last => exact bodies_between rfl _ _ _

section
variable {ch : Char} (ends : ch ∈ lineEnds)
include ends

theorem mem_escapeSlashesFrom (escaped : Bool) (t : Text) : ch ∈ escapeSlashesFrom escaped t ↔ ch ∈ t := by
  have escape : ch ≠ '\\' := ne_of_lineEnd ends (by decide)
  induction t generalizing escaped with
  | nil => rfl
  | cons c t ih =>
    have later : ch ∈ escapeSlashesFrom (c = '\\' ∧ escaped = false) t ↔ ch ∈ t := ih _
    rw [escapeSlashesFrom, List.mem_append, later, List.mem_cons]
    refine or_congr_left ?_
    split
    · next slash => simp [slash.1, escape]
    · exact List.mem_singleton

theorem mem_regexBody (source : Text) : ch ∈ regexBody source ↔ ch ∈ source := by
  rw [← mem_escapeSlashesFrom ends false source]
  unfold regexBody
  split
  · next empty =>
    have whole : escapeSlashesFrom false source = [] := empty
    rw [whole]
    exact iff_of_false (notMem_of_lineEnd ends (by decide)) List.not_mem_nil
  · rfl

end

namespace RuleList
variable {cs : RuleList} {p : Expr}

/-- A regular expression of the predicate has a character that ends a line just if one of the conditions carries it. -/
theorem mem_bodies_predicate {ch : Char} (ends : ch ∈ lineEnds) (compiled : predicate cs = .ok p) :
    (∃ body ∈ regexBodies p.literals, ch ∈ body) ↔ ∃ c ∈ cs, c.Carries ch := by
  obtain ⟨es, each, rfl⟩ := predicate_ok_iff.1 compiled
  have related {c : Condition} {e : Expr} (annotated : annotated c = .ok e) :
      (∃ body ∈ regexBodies e.literals, ch ∈ body) ↔ c.Carries ch := by
    obtain ⟨a, analyzed, rfl⟩ := analysis_of_annotated annotated
    rw [bodies_withComment, bodies_toExpr, ← Condition.carries_iff ends analyzed]
    simp [mem_regexBody ends]
  simp only [bodies_anyOf, List.mem_flatMap]
  constructor
  · rintro ⟨body, ⟨e, member, listed⟩, inside⟩
    obtain ⟨c, here, annotated⟩ := (mem_of_forall₂ each).1 e member
    exact ⟨c, here, (related annotated).1 ⟨body, listed, inside⟩⟩
  · rintro ⟨c, here, carries⟩
    obtain ⟨e, member, annotated⟩ := (mem_of_forall₂ each).2 c here
    obtain ⟨body, listed, inside⟩ := (related annotated).2 carries
    exact ⟨body, ⟨e, member, listed⟩, inside⟩

/-- What a condition of a list carries is in the text of the list and ends none of its lines. -/
theorem mem_of_carries {ch : Char} (ends : ch ∈ lineEnds) {t : Text} (read : ofText t = .ok cs) {c : Condition}
    (listed : c ∈ cs) (carries : c.Carries ch) : ch ∈ t ∧ ch ≠ '\n' := by
  obtain ⟨line, piece, here⟩ := mem_ofLines read c listed
  have inside : ch ∈ line := trim_subset line (Condition.mem_of_carries ends here carries)
  have other : ch ≠ '\n' := by
    rintro rfl
    exact notMem_of_mem_splitOn piece inside
  rw [← join_splitOn '\n' t, mem_join (by simpa using other)]
  exact ⟨⟨line, piece, inside⟩, other⟩

/-- A character that ends a line of a script is in a regular expression of the predicate of a list just if some
    condition of the list carries it there. It is one of the text of the list then, and not the line feed, which ends
    the lines of lists, too. -/
theorem lineEnds_predicate {t : Text} (read : ofText t = .ok cs) (compiled : predicate cs = .ok p) :
    ∃ found, scriptLiterals p.render = some found ∧ ∀ ch ∈ lineEnds,
      ((∃ body, .regex body ∈ found ∧ ch ∈ body) ↔ ∃ c ∈ cs, c.Carries ch) ∧
      ((∃ c ∈ cs, c.Carries ch) → ch ∈ t ∧ ch ≠ '\n') := by
  refine ⟨p.literals, literals_render (tame_predicate compiled), fun ch ends => ⟨?_, ?_⟩⟩
  · rw [← mem_bodies_predicate ends compiled]
    simp only [mem_regexBodies]
  · rintro ⟨c, listed, carries⟩
    exact mem_of_carries ends read listed carries

/-- A list of a regular expression and a wildcard. Nothing in it ends a line but the line feed. -/
theorem lineEnds_predicate_of_two :
    ofText "UR: a/b\nUW: *.c".toList = .ok [.urlRegex "a/b".toList, .urlWildcard "*.c".toList] ∧
    ∃ p, predicate [.urlRegex "a/b".toList, .urlWildcard "*.c".toList] = .ok p ∧
      ∃ found, scriptLiterals p.render = some found ∧ ∀ ch ∈ lineEnds, ¬ ∃ body, .regex body ∈ found ∧ ch ∈ body := by
  have read : ofText "UR: a/b\nUW: *.c".toList = .ok [.urlRegex "a/b".toList, .urlWildcard "*.c".toList] := by rfl
  obtain ⟨p, compiled⟩ : ∃ p, predicate [.urlRegex "a/b".toList, .urlWildcard "*.c".toList] = .ok p := ⟨_, rfl⟩
  obtain ⟨found, shown, each⟩ := lineEnds_predicate read compiled
  refine ⟨read, p, compiled, found, shown, fun ch ends held => ?_⟩
  obtain ⟨inside, other⟩ := (each ch ends).2 ((each ch ends).1.1 held)
  have only : ∀ c ∈ "UR: a/b\nUW: *.c".toList, c ∈ lineEnds → c = '\n' := forall_mem_of_all (by decide)
  exact other (only ch inside ends)

/-- A line separator in a regular expression stays as it is. -/
theorem lineEnds_predicate_kept : '\u2028' ∈ lineEnds ∧
    ofText "UR: a\u2028b".toList = .ok [.urlRegex "a\u2028b".toList] ∧
    ∃ p, predicate [.urlRegex "a\u2028b".toList] = .ok p ∧
      p.render = "/* UrlRegex: a\u2028b */ /a\u2028b/.test(url)".toList ∧
      scriptLiterals p.render = some [.comment " UrlRegex: a\u2028b ".toList, .regex "a\u2028b".toList] := by
  obtain ⟨p, compiled, text, found⟩ : ∃ p, predicate [.urlRegex "a\u2028b".toList] = .ok p ∧
      p.render = "/* UrlRegex: a\u2028b */ /a\u2028b/.test(url)".toList ∧
      p.literals = [.comment " UrlRegex: a\u2028b ".toList, .regex "a\u2028b".toList] :=
    ⟨_, rfl, by decide +kernel, by decide +kernel⟩
  exact ⟨by decide, by rfl, p, compiled, text, found ▸ literals_render (tame_predicate compiled)⟩

end RuleList
end ProxyRouting
