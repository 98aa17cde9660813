import ProxyRouting.Condition.Analysis
import ProxyRouting.Condition.TextForm
import ProxyRouting.Proofs.Condition.RangeText

/-!
Two conditions with one tag say the same, except for a mask of days and the range of days that it spells
(`equivalent_iff_of_tag`). The tag gives away the kind, whose name has no dollar sign, and the text form gives away its
detail; a host wildcard that stands alone has no space, and so is not the text form of another one. The detail
determines all that the analysis uses, once no mask can be taken for a range. What a tag does not show has no say: the
note of a condition that is switched off, and the days of a range behind a mask.
-/
namespace ProxyRouting
open Text

/-- What there is to be heard from an analysis: its answers and its expression. -/
def Analysis.report (a : Analysis) : (Request → LocalTime → Bool) × Expr := (a.isMatch, a.toExpr)

namespace ConditionKind

theorem ofName?_name (k : ConditionKind) : ofName? k.name = some k := by
  cases k <;> decide +kernel

theorem name_inj {k l : ConditionKind} (same : k.name = l.name) : k = l := by
  have read := ofName?_name k
  rw [same, ofName?_name l] at read
  exact (Option.some.inj read).symm

theorem dollar_notMem_name (k : ConditionKind) : '$' ∉ k.name := by
  cases k <;> decide +kernel

end ConditionKind

theorem ofNat_inj {m n : Nat} (same : ofNat m = ofNat n) : m = n := by
  rw [← digitsValue_ofNat m, same, digitsValue_ofNat]

theorem tilde_mem_rangeText (first last : Nat) : '~' ∈ rangeText first last := by simp [rangeText]

theorem rangeText_inj {first last first' last' : Nat} (same : rangeText first last = rangeText first' last') :
    first = first' ∧ last = last' := by
  have cut (m n : Nat) : cut? ['~'] (rangeText m n) = some (ofNat m, ofNat n) :=
    cut?_single (notMem_ofNat (by decide) m) (ofNat n)
  have parts := cut first last
  rw [same, cut] at parts
  injection parts with parts
  injection parts with front back
  exact ⟨ofNat_inj front.symm, ofNat_inj back.symm⟩

theorem subnetText_inj {address address' : Text} {length length' : UInt8}
    (same : subnetText address length = subnetText address' length') : address = address' ∧ length = length' := by
  have cut (t : Text) (n : UInt8) : cutLast? '/' (subnetText t n) = some (t, ofNat n.toNat) :=
    cutLast?_single t (notMem_ofNat (by decide) n.toNat)
  have parts := cut address length
  rw [same, cut] at parts
  injection parts with parts
  injection parts with front back
  exact ⟨front.symm, UInt8.toNat_inj.1 (ofNat_inj back.symm)⟩

namespace WeekdayRule
variable {w w' : WeekdayRule}

/-- The mask of the one rule is the text of the range of the other, which has no mask. -/
def spells (w w' : WeekdayRule) : Bool := w'.mask.isNone && w.mask = some (rangeText w'.first.toNat w'.last.toNat)

theorem spells_of_plain (plain : ∀ days ∈ w.mask, '~' ∉ days) (w' : WeekdayRule) : w.spells w' = false := by
  rw [← Bool.not_eq_true]
  intro spells
  simp only [WeekdayRule.spells, Bool.and_eq_true, decide_eq_true_eq] at spells
  exact plain _ spells.2 (tilde_mem_rangeText _ _)

/-- A mask is probed for its codes, which no form of a range check is. -/
theorem toExpr_ne_of_spells (spells : w.spells w' = true) : w.toExpr ≠ w'.toExpr := by
  obtain ⟨mask, first, last⟩ := w
  obtain ⟨mask', first', last'⟩ := w'
  simp only [WeekdayRule.spells, Bool.and_eq_true, Option.isNone_iff_eq_none, decide_eq_true_eq] at spells
  obtain ⟨rfl, rfl⟩ := spells
  have noted : Expr.rangeComment first'.toNat last'.toNat ≠ [] := by simp [Expr.rangeComment]
  simp only [toExpr, Expr.between]
  split
  · simp [Expr.withComment]
  · split
    · simp [Expr.withComment]
    · split
      · simp [Expr.withComment, noted]
      · simp [Expr.withComment, Expr.rangeCall]

end WeekdayRule

namespace Condition

/-- What the analysis is determined by: the detail, but of a bypass entry the entry as given. -/
def basis : Condition → Text
  | .bypass pattern => pattern
  | c => c.detail

theorem spelled_inj {c d : Condition} {word : Text} (same : textWith.spelled c word = textWith.spelled d word) :
    c.detail = d.detail := by
  have behind := List.append_cancel_left same
  injection behind with _ behind
  split at behind
  · next empty =>
    split at behind
    · next empty' => rw [empty, empty']
    · cases behind
  · split at behind
    · cases behind
    · injection behind

/-- A host wildcard that stands alone is not the text form of one that does not. -/
theorem alone_ne_spelled {p q : Text} (alone : standsAlone p = true) (led : ¬ standsAlone q = true) (word : Text) :
    p ≠ textWith.spelled (.hostWildcard q) word := by
  have present : q ≠ [] := by
    rintro rfl
    exact led (by decide)
  rintro rfl
  simp [standsAlone, textWith.spelled, detail, present] at alone

theorem hostWildcard_inj {p q word : Text}
    (same : textWith (.hostWildcard p) word = textWith (.hostWildcard q) word) : p = q := by
  simp only [textWith] at same
  split at same
  · next alone =>
    split at same
    · exact same
    · next led => exact absurd same (alone_ne_spelled alone led word)
  · next led =>
    split at same
    · next alone => exact absurd same.symm (alone_ne_spelled alone led word)
    · exact spelled_inj same

theorem textWith_of_kind {c : Condition} (other : c.kind ≠ .hostWildcard) (word : Text) :
    c.textWith word = textWith.spelled c word := by
  cases c with
  | hostWildcard p => exact absurd rfl other
  | _ => rfl

theorem detail_of_text {c d : Condition} (kinds : c.kind = d.kind) {word : Text}
    (same : c.textWith word = d.textWith word) : c.detail = d.detail := by
  by_cases host : c.kind = .hostWildcard
  · cases c <;> cases host
    cases d <;> cases kinds
    exact hostWildcard_inj same
  · rw [textWith_of_kind host, textWith_of_kind (kinds ▸ host)] at same
    exact spelled_inj same

theorem tag_of_kind {c : Condition} (other : c.kind ≠ .bypass) : c.tag = c.kind.name ++ '$' :: c.toText := by
  cases c with
  | bypass p => exact absurd rfl other
  | _ => rfl

theorem cut_tag (c : Condition) : ∃ rest, cut? ['$'] c.tag = some (c.kind.name, rest) :=
  ⟨_, cut?_single c.kind.dollar_notMem_name _⟩

theorem basis_of_kind {c : Condition} (other : c.kind ≠ .bypass) : c.basis = c.detail := by
  cases c with
  | bypass p => exact absurd rfl other
  | _ => rfl

/-- One tag comes of one kind and one basis. -/
theorem basis_of_tag {c d : Condition} (same : c.tag = d.tag) : c.kind = d.kind ∧ c.basis = d.basis := by
  have kinds : c.kind = d.kind := by
    obtain ⟨rest, cut⟩ := cut_tag c
    obtain ⟨rest', cut'⟩ := cut_tag d
    rw [same, cut'] at cut
    injection cut with cut
    injection cut with names
    exact ConditionKind.name_inj names.symm
  refine ⟨kinds, ?_⟩
  by_cases bypass : c.kind = .bypass
  · cases c <;> cases bypass
    cases d <;> cases kinds
    have behind := List.append_cancel_left same
    injection behind
  · have bypass' : d.kind ≠ .bypass := kinds ▸ bypass
    rw [tag_of_kind bypass, tag_of_kind bypass', kinds] at same
    have behind := List.append_cancel_left same
    injection behind with _ texts
    rw [toText, toText, toTextAs, toTextAs, kinds] at texts
    rw [basis_of_kind bypass, basis_of_kind bypass', detail_of_text kinds texts]

/-- No mask of days has a tilde in it. -/
def MaskPlain : Condition → Prop
  | .weekday mask _ _ => ∀ days ∈ mask, '~' ∉ days
  | _ => True

/-- The days of the one condition are a mask that spells the range of days of the other. -/
def spellsRange : Condition → Condition → Bool
  | .weekday mask first last, .weekday mask' first' last' =>
    (WeekdayRule.of mask first last).spells (.of mask' first' last')
  | _, _ => false

/-- A rule says what its mask says, or else its range. -/
theorem report_weekday {w w' : WeekdayRule} (apart : w.spells w' = false) (apart' : w'.spells w = false)
    (same : w.mask.getD (rangeText w.first.toNat w.last.toNat) = w'.mask.getD (rangeText w'.first.toNat w'.last.toNat)) :
    (Analysis.weekday w).report = (Analysis.weekday w').report := by
  obtain ⟨mask, first, last⟩ := w
  obtain ⟨mask', first', last'⟩ := w'
  cases mask with
  | none =>
    cases mask' with
    | none =>
      obtain ⟨firsts, lasts⟩ := rangeText_inj same
      obtain rfl := UInt8.toNat_inj.1 firsts
      obtain rfl := UInt8.toNat_inj.1 lasts
      rfl
    | some days' =>
      have range : days' = rangeText first.toNat last.toNat := same.symm
      simp [WeekdayRule.spells, range] at apart'
  | some days =>
    cases mask' with
    | none =>
      have range : days = rangeText first'.toNat last'.toNat := same
      simp [WeekdayRule.spells, range] at apart
    | some days' =>
      cases same
      rfl

theorem spellsRange_of_plain {c : Condition} (plain : c.MaskPlain) (d : Condition) : c.spellsRange d = false := by
  cases c with
  | weekday mask first last =>
    cases d with
    | weekday mask' first' last' =>
      refine WeekdayRule.spells_of_plain (fun days member => ?_) _
      exact plain days (Option.mem_filter_iff.1 member).1
    | _ => rfl
  | _ => rfl

/-- Conditions of one kind and one basis say the same, or are refused with the same words. -/
theorem report_of_basis {c d : Condition} (apart : c.spellsRange d = false) (apart' : d.spellsRange c = false)
    (kinds : c.kind = d.kind) (same : c.basis = d.basis) :
    c.analyze.map Analysis.report = d.analyze.map Analysis.report := by
  cases c with
  | never note =>
    cases d <;> cases kinds
    rfl
  | ip address length =>
    cases d <;> cases kinds
    obtain ⟨rfl, rfl⟩ := subnetText_inj same
    rfl
  | hostLevels min max =>
    cases d <;> cases kinds
    obtain ⟨mins, maxs⟩ := rangeText_inj same
    rw [UInt32.toNat_inj.1 mins, UInt32.toNat_inj.1 maxs]
  | weekday mask first last =>
    cases d <;> cases kinds
    exact congrArg Except.ok (report_weekday apart apart' same)
  | time first last =>
    cases d <;> cases kinds
    obtain ⟨firsts, lasts⟩ := rangeText_inj same
    rw [UInt8.toNat_inj.1 firsts, UInt8.toNat_inj.1 lasts]
  | _ =>
    cases d <;> cases kinds
    cases same
    rfl

/-- Conditions with one tag say the same, or are refused with the same words. -/
theorem report_of_tag {c d : Condition} (plain : c.MaskPlain) (plain' : d.MaskPlain) (same : c.tag = d.tag) :
    c.analyze.map Analysis.report = d.analyze.map Analysis.report := by
  obtain ⟨kinds, bases⟩ := basis_of_tag same
  exact report_of_basis (spellsRange_of_plain plain d) (spellsRange_of_plain plain' c) kinds bases

/-- Two conditions are refused with the same words, or match the same requests at the same times and give the same
    expression. -/
def Equivalent (c d : Condition) : Prop :=
  (∃ e, c.analyze = .error e ∧ d.analyze = .error e) ∨
    ∃ a b, c.analyze = .ok a ∧ d.analyze = .ok b ∧ (∀ r now, a.isMatch r now = b.isMatch r now) ∧ a.toExpr = b.toExpr

theorem equivalent_of_report {c d : Condition} (same : c.analyze.map Analysis.report = d.analyze.map Analysis.report) :
    c.Equivalent d := by
  cases first : c.analyze with
  | error e =>
    cases second : d.analyze with
    | error e' =>
      rw [first, second] at same
      cases same
      exact .inl ⟨e, first, second⟩
    | ok b =>
      rw [first, second] at same
      cases same
  | ok a =>
    cases second : d.analyze with
    | error e' =>
      rw [first, second] at same
      cases same
    | ok b =>
      rw [first, second] at same
      obtain ⟨answers, exprs⟩ := Prod.mk.inj (Except.ok.inj same)
      refine .inr ⟨a, b, first, second, ?_, exprs⟩
      intro r now
      exact congrFun (congrFun answers r) now

theorem equivalent_symm {c d : Condition} (same : c.Equivalent d) : d.Equivalent c := by
  rcases same with ⟨e, first, second⟩ | ⟨a, b, first, second, answers, exprs⟩
  · exact .inl ⟨e, second, first⟩
  · exact .inr ⟨b, a, second, first, fun r now => (answers r now).symm, exprs.symm⟩

/-- A mask and the range that it spells are never the same: the mask is looked up, and the range compared. -/
theorem not_equivalent_of_spellsRange {c d : Condition} (spells : c.spellsRange d = true) : ¬ c.Equivalent d := by
  cases c with
  | weekday mask first last =>
    cases d with
    | weekday mask' first' last' =>
      intro same
      rcases same with ⟨e, first, _⟩ | ⟨a, b, first, second, _, exprs⟩
      · cases first
      · cases first
        cases second
        exact WeekdayRule.toExpr_ne_of_spells spells exprs
    | _ => cases spells
  | _ => cases spells

/-- Two conditions with one tag are equivalent, unless the days of the one are a mask that spells the range of days of
    the other. -/
theorem equivalent_iff_of_tag {c d : Condition} (same : c.tag = d.tag) :
    c.Equivalent d ↔ c.spellsRange d = false ∧ d.spellsRange c = false := by
  constructor
  · intro equivalent
    refine ⟨?_, ?_⟩
    · rw [← Bool.not_eq_true]
      exact fun spells => not_equivalent_of_spellsRange spells equivalent
    · rw [← Bool.not_eq_true]
      exact fun spells => not_equivalent_of_spellsRange spells (equivalent_symm equivalent)
  · rintro ⟨apart, apart'⟩
    obtain ⟨kinds, bases⟩ := basis_of_tag same
    exact equivalent_of_report (report_of_basis apart apart' kinds bases)

/-- The range of days behind a mask has no say, and is not in the tag. -/
theorem equivalent_iff_of_tag_masked :
    tag (.weekday (some "-MTWTF-".toList) 0 0) = tag (.weekday (some "-MTWTF-".toList) 1 5) ∧
      Equivalent (.weekday (some "-MTWTF-".toList) 0 0) (.weekday (some "-MTWTF-".toList) 1 5) := by
  have same : tag (.weekday (some "-MTWTF-".toList) 0 0) = tag (.weekday (some "-MTWTF-".toList) 1 5) := rfl
  have apart : spellsRange (.weekday (some "-MTWTF-".toList) 0 0) (.weekday (some "-MTWTF-".toList) 1 5) = false := rfl
  have apart' : spellsRange (.weekday (some "-MTWTF-".toList) 1 5) (.weekday (some "-MTWTF-".toList) 0 0) = false := rfl
  exact ⟨same, (equivalent_iff_of_tag same).2 ⟨apart, apart'⟩⟩

/-- One tag does not always mean one answer: the mask `1~5` selects Monday alone, by its tilde, and the range from the
    first to the fifth day has Wednesday in it. -/
theorem tag_shared_by_range :
    ¬ ∀ c d : Condition, c.tag = d.tag → c.Equivalent d := by
  intro determined
  have same : tag (.weekday (some "1~5".toList) 0 0) = tag (.weekday none 1 5) := by decide +kernel
  rcases determined _ _ same with ⟨e, first, _⟩ | ⟨a, b, first, second, answers, _⟩
  · cases first
  · cases first
    cases second
    have wednesday := answers ⟨[], [], []⟩ (.ofNumbers 2024 1 10 0 0)
    exact absurd wednesday (by decide +kernel)

end Condition
end ProxyRouting
