import ProxyRouting.Proofs.Condition.Tag
import ProxyRouting.Proofs.RuleList.Predicate
import ProxyRouting.RuleList.Optimize

/-!
A shortened list means what the list does (`optimize_preserves`). Each pass keeps the conditions in order and leaves
out only what cannot be missed: a condition that is switched off never matches, next to one that always matches
no other counts, and of two conditions with one tag either answers for both. What is left has nothing more to
leave out.
-/
namespace ProxyRouting
open ProxyRouting.Expr

namespace RuleList
variable {cs : RuleList} {seen : List Text} {c d : Condition}

theorem active_sublist (cs : RuleList) : (active cs).Sublist cs := List.filter_sublist

theorem mem_active : c ∈ active cs ↔ c ∈ cs ∧ c.kind ≠ .never := by simp [active]

/-- Either one condition stands for the list, or the list has none that could. -/
theorem collapse_cases (cs : RuleList) :
    (.always ∈ cs ∧ collapse cs = [.always]) ∨ (.always ∉ cs ∧ collapse cs = cs) := by
  unfold collapse
  by_cases always : Condition.always ∈ cs
  · exact .inl ⟨always, if_pos always⟩
  · exact .inr ⟨always, if_neg always⟩

theorem collapse_sublist (cs : RuleList) : (collapse cs).Sublist cs := by
  rcases collapse_cases cs with ⟨always, alone⟩ | ⟨_, whole⟩
  · rw [alone]
    exact List.singleton_sublist.2 always
  · rw [whole]

theorem distinctFrom_sublist (seen : List Text) (cs : RuleList) : (distinctFrom seen cs).Sublist cs := by
  induction cs generalizing seen with
  | nil => exact List.Sublist.refl []
  | cons c cs ih =>
    rw [distinctFrom]
    by_cases known : c.tag ∈ seen
    · rw [if_pos known]
      exact (ih seen).cons c
    · rw [if_neg known]
      exact (ih (c.tag :: seen)).cons_cons c

theorem unseen_of_mem (member : c ∈ distinctFrom seen cs) : c.tag ∉ seen := by
  induction cs generalizing seen with
  | nil => cases member
  | cons d cs ih =>
    rw [distinctFrom] at member
    by_cases known : d.tag ∈ seen
    · rw [if_pos known] at member
      exact ih member
    · rw [if_neg known] at member
      rcases List.mem_cons.1 member with rfl | later
      · exact known
      · exact fun before => ih later (List.mem_cons_of_mem _ before)

/-- Whatever is left out has its tag seen before, or among what is left. -/
theorem tag_kept (seen : List Text) (member : c ∈ cs) : c.tag ∈ seen ∨ ∃ d ∈ distinctFrom seen cs, d.tag = c.tag := by
  induction cs generalizing seen with
  | nil => cases member
  | cons d cs ih =>
    rw [distinctFrom]
    by_cases known : d.tag ∈ seen
    · rw [if_pos known]
      rcases List.mem_cons.1 member with rfl | later
      · exact .inl known
      · exact ih seen later
    · rw [if_neg known]
      rcases List.mem_cons.1 member with rfl | later
      · exact .inr ⟨c, List.mem_cons_self, rfl⟩
      · rcases ih (d.tag :: seen) later with before | ⟨e, kept, same⟩
        · rcases List.mem_cons.1 before with same | before
          · exact .inr ⟨d, List.mem_cons_self, same.symm⟩
          · exact .inl before
        · exact .inr ⟨e, List.mem_cons_of_mem _ kept, same⟩

/-- The conditions have different tags. -/
def TagsDiffer (cs : RuleList) : Prop := cs.Pairwise fun c d => c.tag ≠ d.tag

theorem tagsDiffer_distinctFrom (seen : List Text) (cs : RuleList) : TagsDiffer (distinctFrom seen cs) := by
  induction cs generalizing seen with
  | nil => exact List.Pairwise.nil
  | cons c cs ih =>
    rw [distinctFrom]
    by_cases known : c.tag ∈ seen
    · rw [if_pos known]
      exact ih seen
    · rw [if_neg known]
      refine List.Pairwise.cons (fun d later same => ?_) (ih (c.tag :: seen))
      exact unseen_of_mem later (same ▸ List.mem_cons_self)

theorem distinctFrom_of_tagsDiffer (differ : TagsDiffer cs) (unseen : ∀ c ∈ cs, c.tag ∉ seen) :
    distinctFrom seen cs = cs := by
  induction cs generalizing seen with
  | nil => rfl
  | cons c cs ih =>
    obtain ⟨apart, differ⟩ := List.pairwise_cons.1 differ
    rw [distinctFrom, if_neg (unseen c List.mem_cons_self), ih differ]
    intro d later before
    rcases List.mem_cons.1 before with same | before
    · exact apart d later same.symm
    · exact unseen d (List.mem_cons_of_mem _ later) before

theorem optimize_list (cs : RuleList) : (optimize cs).list = distinct (collapse (active cs)) := rfl

theorem optimize_sublist_active (cs : RuleList) : (optimize cs).list.Sublist (active cs) :=
  (distinctFrom_sublist [] _).trans (collapse_sublist _)

theorem optimize_sublist (cs : RuleList) : (optimize cs).list.Sublist cs :=
  (optimize_sublist_active cs).trans (active_sublist cs)

theorem tagsDiffer_optimize (cs : RuleList) : TagsDiffer (optimize cs).list := tagsDiffer_distinctFrom [] _

theorem kind_of_optimize (member : c ∈ (optimize cs).list) : c.kind ≠ .never :=
  (mem_active.1 ((optimize_sublist_active cs).subset member)).2

/-- What holds of no condition that is switched off, of the one that always matches, and of conditions with one tag
    alike, holds of a condition of the shortened list if it does of one of the list. -/
theorem exists_optimize {P : Condition → Prop} (off : ∀ c, c.kind = .never → ¬ P c) (always : P .always)
    (tags : ∀ c ∈ cs, ∀ d ∈ cs, c.tag = d.tag → P c → P d) :
    (∃ c ∈ (optimize cs).list, P c) ↔ ∃ c ∈ cs, P c := by
  constructor
  · rintro ⟨c, member, holds⟩
    exact ⟨c, (optimize_sublist cs).subset member, holds⟩
  · rintro ⟨c, member, holds⟩
    rw [optimize_list]
    rcases collapse_cases (active cs) with ⟨_, alone⟩ | ⟨_, whole⟩
    · rw [alone]
      exact ⟨.always, List.mem_cons_self, always⟩
    · have here : c ∈ active cs := mem_active.2 ⟨member, fun never => off c never holds⟩
      rw [whole]
      rcases tag_kept [] here with before | ⟨d, kept, same⟩
      · cases before
      · have listed : d ∈ cs := (active_sublist cs).subset ((distinctFrom_sublist [] _).subset kept)
        exact ⟨d, kept, tags c member d listed same.symm holds⟩

/-- A shortened list has no condition that is switched off, no repetition, and none that always matches unless it is
    alone, so nothing changes when it is shortened again. -/
theorem optimize_optimize (cs : RuleList) : (optimize (optimize cs).list).list = (optimize cs).list := by
  have on : active (optimize cs).list = (optimize cs).list := by
    refine List.filter_eq_self.2 fun c member => ?_
    exact decide_eq_true (kind_of_optimize member)
  have collapsed : collapse (optimize cs).list = (optimize cs).list := by
    rcases collapse_cases (active cs) with ⟨_, alone⟩ | ⟨notAlways, _⟩
    · rw [optimize_list, alone]
      rfl
    · have without : Condition.always ∉ (optimize cs).list := fun member =>
        notAlways ((optimize_sublist_active cs).subset member)
      exact if_neg without
  rw [optimize_list (optimize cs).list, on, collapsed]
  exact distinctFrom_of_tagsDiffer (tagsDiffer_optimize cs) fun c _ => List.not_mem_nil

/-- Conditions with one tag match alike and are compiled alike. -/
theorem alike_of_tag (plain : c.MaskPlain) (plain' : d.MaskPlain) (same : c.tag = d.tag) :
    (∀ r now, c.isMatch r now = d.isMatch r now) ∧ c.toExpr = d.toExpr := by
  have heard (c : Condition) (r : Request) (now : LocalTime) :
      c.isMatch r now = (c.analyze.map Analysis.report).map fun report => report.1 r now := by
    unfold Condition.isMatch
    cases c.analyze <;> rfl
  have seen (c : Condition) : c.toExpr = (c.analyze.map Analysis.report).map Prod.snd := by
    unfold Condition.toExpr
    cases c.analyze <;> rfl
  have reports := Condition.report_of_tag plain plain' same
  constructor
  · intro r now
    rw [heard c, heard d, reports]
  · rw [seen c, seen d, reports]

theorem predicate_of_each (each : ∀ c ∈ cs, ∃ e, c.toExpr = .ok e) : ∃ p, predicate cs = .ok p := by
  cases compiled : predicate cs with
  | ok p => exact ⟨p, rfl⟩
  | error error =>
    obtain ⟨before, c, after, rfl, _, failed⟩ := predicate_error_iff.1 compiled
    obtain ⟨e, passed⟩ := each c (by simp)
    rw [failed] at passed
    cases passed

/-- Some condition of a shortened list matches just when one of the list does. -/
theorem isMatch_optimize (plain : ∀ c ∈ cs, c.MaskPlain) (r : Request) (now : LocalTime) :
    (∃ c ∈ (optimize cs).list, c.isMatch r now = .ok true) ↔ ∃ c ∈ cs, c.isMatch r now = .ok true := by
  refine exists_optimize (fun c off matched => ?_) rfl fun c member d member' same matched => ?_
  · cases c <;> cases off
    cases matched
  · rw [← (alike_of_tag (plain c member) (plain d member') same).1 r now, matched]

/-- The predicate of a shortened list counts as that of the list does. -/
theorem evalBool_optimize (plain : ∀ c ∈ cs, c.MaskPlain) (each : ∀ c ∈ cs, ∃ e, c.toExpr = .ok e) :
    ∃ p p', predicate cs = .ok p ∧ predicate (optimize cs).list = .ok p' ∧
      ∀ r now, ∃ b, evalBool (Env.ofRequest r now) p = .ok b ∧ evalBool (Env.ofRequest r now) p' = .ok b := by
  obtain ⟨p, compiled⟩ := predicate_of_each each
  obtain ⟨p', compiled'⟩ := predicate_of_each fun c member => each c ((optimize_sublist cs).subset member)
  refine ⟨p, p', compiled, compiled', fun r now => ?_⟩
  have defined (cs : RuleList) : ∀ c ∈ cs, ∀ e, c.toExpr = .ok e → ∃ v, eval (Env.ofRequest r now) e = .ok v :=
    fun c _ e compiled => eval_of_answers (answers_of_toExpr compiled (serves_ofRequest r now))
  obtain ⟨b, answer, holds⟩ := evalBool_predicate compiled (defined cs)
  obtain ⟨b', answer', holds'⟩ := evalBool_predicate compiled' (defined _)
  have kept : (∃ c ∈ (optimize cs).list, ∃ e, c.toExpr = .ok e ∧ evalBool (Env.ofRequest r now) e = .ok true) ↔
      ∃ c ∈ cs, ∃ e, c.toExpr = .ok e ∧ evalBool (Env.ofRequest r now) e = .ok true := by
    refine exists_optimize (fun c off => ?_) ⟨_, rfl, rfl⟩ fun c member d member' same holds => ?_
    · cases c <;> cases off
      rintro ⟨e, ⟨⟩, truth⟩
      cases truth
    · rwa [← (alike_of_tag (plain c member) (plain d member') same).2]
  have same : b' = b := by
    rw [Bool.eq_iff_iff, holds, holds', kept]
  exact ⟨b, answer, same ▸ answer'⟩

/-- Shortening a list whose masks of days have no tilde changes neither what it matches nor what its predicate says.
    What it leaves stands in order, is not switched off, has no tag twice, and stays when it is shortened again. -/
theorem optimize_preserves (cs : RuleList) (plain : ∀ c ∈ cs, c.MaskPlain) :
    (∀ r now, (∃ c ∈ (optimize cs).list, c.isMatch r now = .ok true) ↔ ∃ c ∈ cs, c.isMatch r now = .ok true) ∧
    ((∀ c ∈ cs, ∃ e, c.toExpr = .ok e) → ∃ p p', predicate cs = .ok p ∧ predicate (optimize cs).list = .ok p' ∧
      ∀ r now, ∃ b, evalBool (Env.ofRequest r now) p = .ok b ∧ evalBool (Env.ofRequest r now) p' = .ok b) ∧
    (optimize cs).list.Sublist cs ∧
    (∀ c ∈ (optimize cs).list, c.kind ≠ .never) ∧
    ((optimize cs).list.Pairwise fun c d => c.tag ≠ d.tag) ∧
    (optimize (optimize cs).list).list = (optimize cs).list := by
  refine ⟨isMatch_optimize plain, evalBool_optimize plain, optimize_sublist cs, ?_, tagsDiffer_optimize cs, optimize_optimize cs⟩
  intro c member
  exact kind_of_optimize member

theorem optimize_preserves_repeated :
    let cs : RuleList := [.weekday (some "SM----S".toList) 0 0, .never (some "off".toList), .keyword "ads".toList,
      .weekday (some "SM----S".toList) 1 2, .ip "10.0.0.0".toList 8]
    (∀ c ∈ cs, c.MaskPlain) ∧ (∀ c ∈ cs, ∃ e, c.toExpr = .ok e) ∧ (optimize cs).list.length = 3 ∧
      (∀ r now, (∃ c ∈ (optimize cs).list, c.isMatch r now = .ok true) ↔ ∃ c ∈ cs, c.isMatch r now = .ok true) ∧
      ∃ p p', predicate cs = .ok p ∧ predicate (optimize cs).list = .ok p' ∧
        ∀ r now, ∃ b, evalBool (Env.ofRequest r now) p = .ok b ∧ evalBool (Env.ofRequest r now) p' = .ok b := by
  intro cs
  have plain : ∀ c ∈ cs, c.MaskPlain := by simp [cs, Condition.MaskPlain]
  have each : ∀ c ∈ cs, ∃ e, c.toExpr = .ok e := by
    simp only [cs, List.forall_mem_cons]
    exact ⟨⟨_, rfl⟩, ⟨_, rfl⟩, ⟨_, rfl⟩, ⟨_, rfl⟩, ⟨_, rfl⟩, List.forall_mem_nil _⟩
  obtain ⟨matches', predicates, _⟩ := optimize_preserves cs plain
  exact ⟨plain, each, by decide +kernel, matches', predicates each⟩

end RuleList
end ProxyRouting
