import ProxyRouting.Condition.Cache
import ProxyRouting.Proofs.Condition.Tag

/-!
Sessions on a live condition, whose answers do not depend on its history (`session_answers`). A record in the
cache was filled for some condition with its tag, and its expression, once there, is that of its analysis
(`CacheRecord.Faithful`). A record is handed out under its own tag only, and conditions with one tag say the
same, so it stands for the current condition however old it is. An analysis that fails changes nothing.
-/
namespace ProxyRouting

/-- What can be done to a live condition. -/
inductive SessionStep
  | replace (c : Condition)
  /-- Makes a copy and goes on with it, or with the condition itself. -/
  | clone (goOn : Bool)
  | isMatch (r : Request) (now : LocalTime)
  | compile
  | analyze
  | tag
  | text (abbreviation : Option Int)

/-- What is heard of a step. -/
inductive SessionAnswer
  | done
  | matched (answer : Except ConditionError Bool)
  | compiled (answer : Except ConditionError Expr)
  | analyzed (answer : Except ConditionError CacheRecord)
  | text (t : Text)

/-- A step that was taken, with the condition before and after it. -/
structure SessionEvent where
  before : LiveCondition
  step : SessionStep
  answer : SessionAnswer
  after : LiveCondition

namespace SessionStep

/-- The step asks for an answer that only the analysis can give. -/
def Asks : SessionStep → Prop
  | isMatch _ _ => True
  | compile => True
  | _ => False

/-- A condition that the step brings in has no tilde in its mask. -/
def MaskPlain : SessionStep → Prop
  | replace c => c.MaskPlain
  | _ => True

/-- The condition after a step. -/
def current : SessionStep → Condition → Condition
  | replace c, _ => c
  | _, c => c

end SessionStep

/-- The answer says that the analysis failed. -/
def SessionAnswer.Failed : SessionAnswer → Prop
  | matched (.error _) => True
  | compiled (.error _) => True
  | analyzed (.error _) => True
  | _ => False

namespace LiveCondition

/-- Takes a step. -/
def perform (l : LiveCondition) : SessionStep → SessionAnswer × LiveCondition
  | .replace c => (.done, l.replace c)
  | .clone goOn => (.done, if goOn then l.clone else l)
  | .isMatch r now => (l.isMatch r now).map .matched id
  | .compile => l.compile.map .compiled id
  | .analyze => l.analyze.map .analyzed id
  | .tag => (.text l.condition.tag, l)
  | .text abbreviation => (.text (l.condition.toTextAs abbreviation), l)

/-- The events of a session. -/
def session : LiveCondition → List SessionStep → List SessionEvent
  | _, [] => []
  | l, step :: steps =>
    let (answer, after) := l.perform step
    ⟨l, step, answer, after⟩ :: after.session steps

end LiveCondition

/-- The record was filled for a condition with its tag, and remembers no other expression than its own. -/
structure CacheRecord.Faithful (r : CacheRecord) : Prop where
  filled : ∃ c : Condition, c.MaskPlain ∧ c.tag = r.tag ∧ c.analyze = .ok r.analysis
  compiled : ∀ e ∈ r.compiled, e = r.analysis.toExpr

/-- A faithful record says what any condition with its tag says. -/
theorem CacheRecord.Faithful.report {r : CacheRecord} (faithful : r.Faithful) {c : Condition} (plain : c.MaskPlain)
    (same : r.tag = c.tag) : c.analyze.map Analysis.report = .ok r.analysis.report := by
  obtain ⟨d, plain', tagged, analyzed⟩ := faithful.filled
  rw [Condition.report_of_tag plain plain' (same.symm.trans tagged.symm), analyzed]
  rfl

theorem Condition.isMatch_of_report {c : Condition} {a : Analysis} (same : c.analyze.map Analysis.report = .ok a.report)
    (r : Request) (now : LocalTime) : c.isMatch r now = .ok (a.isMatch r now) := by
  rw [isMatch]
  cases analyzed : c.analyze with
  | error e => rw [analyzed] at same; cases same
  | ok b =>
    rw [analyzed] at same
    injection same with same
    exact congrArg (fun heard => Except.ok (heard.1 r now)) same

theorem Condition.toExpr_of_report {c : Condition} {a : Analysis} (same : c.analyze.map Analysis.report = .ok a.report) :
    c.toExpr = .ok a.toExpr := by
  rw [toExpr]
  cases analyzed : c.analyze with
  | error e => rw [analyzed] at same; cases same
  | ok b =>
    rw [analyzed] at same
    injection same with same
    exact congrArg (fun heard => Except.ok heard.2) same

namespace LiveCondition

/-- The mask is plain, and the record, if there is one, is faithful. -/
structure Sound (l : LiveCondition) : Prop where
  plain : l.condition.MaskPlain
  faithful : ∀ r ∈ l.cache.slot, r.Faithful

theorem sound_fresh {c : Condition} (plain : c.MaskPlain) : Sound (fresh c) := ⟨plain, nofun⟩

/-- The analysis hands out a faithful record of the condition's tag, which the cache holds from then on, or it
    fails as the condition's own analysis does and changes nothing. -/
theorem analyze_cases {l : LiveCondition} (sound : l.Sound) :
    (∃ r cache, l.analyze = (.ok r, ⟨l.condition, cache⟩) ∧ cache.slot = some r ∧ r.tag = l.condition.tag ∧ r.Faithful) ∨
      ∃ e, l.analyze = (.error e, l) ∧ l.condition.analyze = .error e := by
  obtain ⟨c, cache⟩ := l
  rw [analyze, AnalysisCache.get]
  cases found : cache.find? c.tag with
  | some r =>
    obtain ⟨held, tagged⟩ := Option.filter_eq_some_iff.1 found
    exact .inl ⟨r, cache, rfl, held, of_decide_eq_true tagged, sound.faithful r held⟩
  | none =>
    cases analyzed : c.analyze with
    | error e => exact .inr ⟨e, rfl, rfl⟩
    | ok a =>
      refine .inl ⟨(cache.fill c.tag a).1, (cache.fill c.tag a).2, rfl, rfl, rfl, ?_, nofun⟩
      exact ⟨c, sound.plain, rfl, analyzed⟩

theorem isMatch_answer {l : LiveCondition} (sound : l.Sound) (r : Request) (now : LocalTime) :
    (l.isMatch r now).1 = l.condition.isMatch r now := by
  rcases analyze_cases sound with ⟨record, cache, run, -, tagged, faithful⟩ | ⟨e, run, failed⟩
  · rw [Condition.isMatch_of_report (faithful.report sound.plain tagged), isMatch, run]
    rfl
  · rw [Condition.isMatch, failed, isMatch, run]
    rfl

theorem compile_answer {l : LiveCondition} (sound : l.Sound) : l.compile.1 = l.condition.toExpr := by
  rcases analyze_cases sound with ⟨record, cache, run, -, tagged, faithful⟩ | ⟨e, run, failed⟩
  · rw [Condition.toExpr_of_report (faithful.report sound.plain tagged), compile, run]
    dsimp only
    split
    · next e known => rw [faithful.compiled e known]
    · rfl
  · rw [Condition.toExpr, failed, compile, run]
    rfl

theorem sound_analyze {l : LiveCondition} (sound : l.Sound) : l.analyze.2.Sound := by
  rcases analyze_cases sound with ⟨r, cache, run, held, -, faithful⟩ | ⟨e, run, -⟩
  · rw [run]
    refine ⟨sound.plain, fun r' held' => ?_⟩
    cases held.symm.trans held'
    exact faithful
  · rw [run]
    exact sound

theorem sound_compile {l : LiveCondition} (sound : l.Sound) : l.compile.2.Sound := by
  have analyzed := sound_analyze sound
  rcases analyze_cases sound with ⟨r, cache, run, -, -, faithful⟩ | ⟨e, run, -⟩
  · rw [run] at analyzed
    rw [compile, run]
    dsimp only
    split
    · exact analyzed
    · refine ⟨sound.plain, fun r' held => ?_⟩
      cases held
      exact ⟨faithful.filled, fun e known => (Option.some.inj known).symm⟩
  · rw [compile, run]
    exact sound

/-- Every step leaves a sound condition. -/
theorem sound_perform {l : LiveCondition} (sound : l.Sound) {step : SessionStep} (plain : step.MaskPlain) :
    (l.perform step).2.Sound := by
  cases step with
  | replace c => exact ⟨plain, sound.faithful⟩
  | clone goOn =>
    cases goOn with
    | false => exact sound
    | true => exact sound_fresh sound.plain
  | isMatch r now => exact sound_analyze sound
  | compile => exact sound_compile sound
  | analyze => exact sound_analyze sound
  | tag => exact sound
  | text abbreviation => exact sound

/-- What is asked of a sound condition is answered as by a new one. -/
theorem perform_answer {l : LiveCondition} (sound : l.Sound) {step : SessionStep} (asks : step.Asks) :
    (l.perform step).1 = ((fresh l.condition).perform step).1 := by
  have anew := sound_fresh sound.plain
  cases step with
  | isMatch r now => exact congrArg SessionAnswer.matched ((isMatch_answer sound r now).trans (isMatch_answer anew r now).symm)
  | compile => exact congrArg SessionAnswer.compiled ((compile_answer sound).trans (compile_answer anew).symm)
  | _ => cases asks

theorem condition_analyze (l : LiveCondition) : l.analyze.2.condition = l.condition := rfl

theorem condition_compile (l : LiveCondition) : l.compile.2.condition = l.condition := by
  rw [compile, ← condition_analyze l]
  generalize l.analyze = run
  obtain ⟨found, after⟩ := run
  cases found with
  | error e => rfl
  | ok r =>
    dsimp only
    split <;> rfl

/-- Nothing but a replacement changes the condition. -/
theorem condition_perform (l : LiveCondition) (step : SessionStep) :
    (l.perform step).2.condition = step.current l.condition := by
  cases step with
  | clone goOn => cases goOn <;> rfl
  | compile => exact condition_compile l
  | _ => rfl

theorem analyze_failed {l : LiveCondition} {e : ConditionError} (failed : l.analyze.1 = .error e) : l.analyze.2 = l := by
  obtain ⟨c, cache⟩ := l
  rw [analyze, AnalysisCache.get] at failed ⊢
  cases found : cache.find? c.tag with
  | some r => rfl
  | none =>
    rw [found] at failed
    cases analyzed : c.analyze with
    | error e => rfl
    | ok a =>
      simp only [analyzed] at failed
      cases failed

theorem compile_failed {l : LiveCondition} {e : ConditionError} (failed : l.compile.1 = .error e) : l.compile.2 = l := by
  have unchanged := @analyze_failed l e
  rw [compile] at failed ⊢
  generalize l.analyze = run at unchanged failed ⊢
  obtain ⟨found, after⟩ := run
  cases found with
  | error e' =>
    cases failed
    exact unchanged rfl
  | ok r =>
    dsimp only at failed
    split at failed <;> cases failed

/-- An analysis that fails leaves the condition and its record as they are. -/
theorem perform_failed {l : LiveCondition} {step : SessionStep} (failed : (l.perform step).1.Failed) :
    (l.perform step).2 = l := by
  cases step with
  | isMatch r now =>
    cases answer : l.analyze.1 with
    | error e => exact analyze_failed answer
    | ok found =>
      exfalso
      simp [perform, isMatch, answer, SessionAnswer.Failed, Except.map] at failed
  | compile =>
    cases answer : l.compile.1 with
    | error e => exact compile_failed answer
    | ok found =>
      exfalso
      simp [perform, answer, SessionAnswer.Failed] at failed
  | analyze =>
    cases answer : l.analyze.1 with
    | error e => exact analyze_failed answer
    | ok found =>
      exfalso
      simp [perform, answer, SessionAnswer.Failed] at failed
  | _ => cases failed

theorem session_cons (l : LiveCondition) (step : SessionStep) (steps : List SessionStep) :
    l.session (step :: steps) =
      ⟨l, step, (l.perform step).1, (l.perform step).2⟩ :: (l.perform step).2.session steps := rfl

/-- What holds of a live condition and is kept by every step that is let in holds before each step of a session. -/
theorem session_invariant (Holds : LiveCondition → Prop) (LetIn : SessionStep → Prop)
    (kept : ∀ l step, Holds l → LetIn step → Holds (l.perform step).2)
    {l : LiveCondition} (start : Holds l) {steps : List SessionStep} (each : ∀ step ∈ steps, LetIn step) :
    ∀ event ∈ l.session steps, Holds event.before ∧ event.answer = (event.before.perform event.step).1 ∧
      event.after = (event.before.perform event.step).2 := by
  induction steps generalizing l with
  | nil => exact fun _ member => absurd member List.not_mem_nil
  | cons step steps ih =>
    intro event member
    rw [session_cons] at member
    rcases List.mem_cons.1 member with rfl | later
    · exact ⟨start, rfl, rfl⟩
    · have next := kept l step start (each step List.mem_cons_self)
      exact ih next (fun s inside => each s (List.mem_cons_of_mem _ inside)) event later

theorem session_sound {l : LiveCondition} (sound : l.Sound) {steps : List SessionStep}
    (plain : ∀ step ∈ steps, step.MaskPlain) :
    ∀ event ∈ l.session steps, event.before.Sound ∧ event.answer = (event.before.perform event.step).1 ∧
      event.after = (event.before.perform event.step).2 :=
  session_invariant Sound SessionStep.MaskPlain (fun _ _ sound plain => sound_perform sound plain) sound plain

/-- In a session whose masks have no tilde, every match and every expression is what a new condition would give,
    also where it is an error, and an analysis that fails leaves the condition and its record as they are. The
    condition itself is the one last put in place. -/
theorem session_answers {c : Condition} {steps : List SessionStep} (plain : c.MaskPlain)
    (plainSteps : ∀ step ∈ steps, step.MaskPlain) :
    ∀ event ∈ session (fresh c) steps,
      (event.step.Asks → event.answer = ((fresh event.before.condition).perform event.step).1) ∧
        (event.answer.Failed → event.after = event.before) ∧
        event.after.condition = event.step.current event.before.condition := by
  intro event member
  obtain ⟨sound, answer, after⟩ := session_sound (sound_fresh plain) plainSteps event member
  rw [answer, after]
  exact ⟨perform_answer sound, perform_failed, condition_perform event.before event.step⟩

/-- A record outlives a condition that cannot be analyzed, and serves again. -/
theorem session_answers_revived :
    Condition.MaskPlain (.weekday (some "-M-W-F-".toList) 0 0) ∧
      ∀ event ∈ session (fresh (.weekday (some "-M-W-F-".toList) 0 0))
          [.compile, .replace (.ip "localhost".toList 8), .compile, .replace (.weekday (some "-M-W-F-".toList) 1 5), .compile],
        (event.step.Asks → event.answer = ((fresh event.before.condition).perform event.step).1) ∧
          (event.answer.Failed → event.after = event.before) ∧
          event.after.condition = event.step.current event.before.condition := by
  have plain (first last : UInt8) : Condition.MaskPlain (.weekday (some "-M-W-F-".toList) first last) := by
    rintro days ⟨⟩
    decide
  refine ⟨plain 0 0, session_answers (plain 0 0) ?_⟩
  simp only [List.forall_mem_cons]
  exact ⟨trivial, trivial, trivial, plain 1 5, trivial, nofun⟩

end LiveCondition
end ProxyRouting
