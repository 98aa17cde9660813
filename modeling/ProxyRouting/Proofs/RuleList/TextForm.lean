import Mathlib.Data.List.Forall2
import ProxyRouting.Condition.Analysis
import ProxyRouting.Proofs.Condition.BypassColon
import ProxyRouting.RuleList.Basic

/-!
The text of a list that was read can be read again (`toText_preserves`). Each condition is written on a line of its
own and read from it, in order, but two kinds of conditions need not come back as they were. A host wildcard that
stands alone may look like a blank line, a comment or a heading, and is then passed over like one. A bypass entry
is written in its canonical spelling, which leaves out a colon without a port even where it is needed. All others are
there again and match the same requests at the same times.
-/
namespace ProxyRouting
open Text

namespace Condition

/-- The text form is read as a remark: a host wildcard that stands alone and is empty, or begins like a comment or
    a heading. -/
def readsAsRemark : Condition → Bool
  | .hostWildcard pattern => standsAlone pattern && RuleList.isRemark pattern
  | _ => false

/-- The condition is a bypass entry that would be another one without the colon it ends in. -/
def needsColon : Condition → Bool
  | .bypass entry => Bypass.needsColon entry
  | _ => false

/-- What the text form is read as, unless it is read as a remark. -/
def reread : Condition → Condition
  | .bypass entry => .bypass (trim (detail (.bypass entry)))
  | c => c

/-- Two conditions match the same requests at the same times. -/
def Agrees (c d : Condition) : Prop := ∀ r now, c.isMatch r now = d.isMatch r now

variable {t : Text} {c : Condition}

theorem reread_of_kind (other : c.kind ≠ .bypass) : c.reread = c := by
  cases c with
  | bypass => exact absurd rfl other
  | _ => rfl

theorem spelling_mem (c : Condition) : c.kind.abbreviation (-1) ∈ c.kind.words := c.kind.word_mem (some (-1))

theorem ofText?_trim (t : Text) : ofText? (trim t) = ofText? t := by
  rw [ofText?, ofText?, trim_of_trimmed (trimmed_trim t)]

theorem ofText?_toText (read : ofText? t = some c) : ofText? c.toText = some c.reread := by
  by_cases bypass : c.kind = .bypass
  · cases c with
    | bypass entry => exact ofText?_bypass entry (some (-1))
    | _ => cases bypass
  · rw [reread_of_kind bypass]
    exact ofText?_of_settled (settled_of_read read bypass) c.spelling_mem

/-- A bypass entry that was read is trimmed. -/
theorem trimmed_of_read {entry : Text} (read : ofText? t = some (.bypass entry)) : Trimmed entry := by
  obtain ⟨k, _, same⟩ := Option.map_eq_some_iff.1 read
  have kind : k = .bypass := by
    rw [← kind_ofDetail k, same]
    rfl
  rw [kind] at same
  cases same
  exact trimmed_splitDetail (trimmed_trim t)

theorem agrees_reread (read : ofText? t = some c) (needless : c.needsColon = false) : c.Agrees c.reread := by
  cases c with
  | bypass entry =>
    have trimmed := trimmed_of_read read
    have solid : Trimmed (detail (.bypass entry)) := by
      rw [detail]
      split
      · exact trimmed
      · exact Bypass.trimmed_normalized needless trimmed
    have same : Bypass.ofText (trim (detail (.bypass entry))) = Bypass.ofText entry := by
      rw [trim_of_trimmed solid]
      exact ofText_detail (Bypass.kept_of_needsColon needless)
    intro r now
    simp only [reread, isMatch, analyze, same]
  | _ => exact fun _ _ => rfl

theorem isRemark_spelled (c : Condition) :
    RuleList.isRemark (trim (textWith.spelled c (c.kind.abbreviation (-1)))) = false := by
  obtain ⟨_, plain⟩ := c.kind.words_known _ c.spelling_mem
  have present : c.kind.abbreviation (-1) ≠ [] := by cases c.kind <;> exact List.cons_ne_nil _ _
  have letter (k : ConditionKind) (rest : Text) : RuleList.isRemark (k.abbreviation (-1) ++ rest) = false := by
    cases k <;> rfl
  rw [textWith.spelled, trim_append_of_trimmed (trimmed_of_solid plain) present]
  exact letter c.kind _

theorem isRemark_toText (read : ofText? t = some c) : RuleList.isRemark (trim c.toText) = c.readsAsRemark := by
  cases c with
  | hostWildcard pattern =>
    have trimmed : Trimmed pattern := (settled_of_read read ConditionKind.noConfusion).trimmed
    show RuleList.isRemark (trim (if standsAlone pattern then pattern else _)) = (standsAlone pattern && _)
    cases alone : standsAlone pattern with
    | true => simp [trim_of_trimmed trimmed]
    | false => simpa using isRemark_spelled (.hostWildcard pattern)
  | _ => exact isRemark_spelled _

theorem newline_notMem_rangeText (first last : Nat) : '\n' ∉ rangeText first last := by
  simp [rangeText, notMem_ofNat]

theorem newline_notMem_subnetText (n : Ip.Network) : '\n' ∉ subnetText n.address.toText (UInt8.ofNat n.length) := by
  have address : '\n' ∉ n.address.toText := Ip.notMem_toText (by decide) n.address
  simp [subnetText, address, notMem_ofNat]

theorem newline_notMem_ofDetail (k : ConditionKind) {t : Text} (oneLine : '\n' ∉ t) : '\n' ∉ (ofDetail k t).detail := by
  cases k with
  | always => simp [ofDetail, detail]
  | never =>
    rw [ofDetail]
    split
    · simp [detail]
    · exact oneLine
  | bypass =>
    rw [ofDetail, detail]
    split
    · exact oneLine
    · exact Bypass.newline_notMem_normalized oneLine
  | ip =>
    rw [ofDetail, ipOfText]
    split
    · next n _ => exact newline_notMem_subnetText n
    · exact newline_notMem_subnetText ⟨.v4 0, 0, Nat.zero_le _⟩
  | hostLevels => exact newline_notMem_rangeText _ _
  | weekday =>
    rw [ofDetail, weekdayOfText]
    split
    · next mask =>
      have present : t ≠ [] := by
        rintro rfl
        cases mask.2
      rwa [detail, Option.filter_some_pos (by simpa using present)]
    · exact newline_notMem_rangeText _ _
  | time => exact newline_notMem_rangeText _ _
  | urlRegex => exact oneLine
  | urlWildcard => exact oneLine
  | hostRegex => exact oneLine
  | hostWildcard => exact oneLine
  | keyword => exact oneLine

/-- What was read from one line is written on one line. -/
theorem newline_notMem_toText (read : ofText? t = some c) (oneLine : '\n' ∉ t) : '\n' ∉ c.toText := by
  have detail : '\n' ∉ c.detail := by
    obtain ⟨k, _, rfl⟩ := Option.map_eq_some_iff.1 read
    exact newline_notMem_ofDetail k fun member => oneLine (trim_subset t (splitDetail_subset (trim t) member))
  have word : '\n' ∉ c.kind.abbreviation (-1) := fun member => by
    cases (c.kind.words_known _ c.spelling_mem).2 _ member
  have spelled : '\n' ∉ textWith.spelled c (c.kind.abbreviation (-1)) := by
    rw [textWith.spelled]
    split
    · simp [word]
    · simp [word, detail]
  cases c with
  | hostWildcard pattern =>
    show '\n' ∉ if standsAlone pattern then pattern else _
    split
    · exact detail
    · exact spelled
  | _ => exact spelled

end Condition

namespace RuleList
variable {cs : RuleList}

/-- Every condition of a list was read from one of its lines. -/
theorem mem_ofLines {number : Nat} {lines : List Text} (read : ofLines number lines = .ok cs) :
    ∀ c ∈ cs, ∃ line ∈ lines, Condition.ofText? (trim line) = some c := by
  induction lines generalizing number cs with
  | nil =>
    cases read
    simp
  | cons line lines ih =>
    rw [ofLines] at read
    intro c member
    split at read
    · obtain ⟨source, later, here⟩ := ih read c member
      exact ⟨source, List.mem_cons_of_mem line later, here⟩
    · split at read
      · cases read
      · next d first =>
        obtain ⟨ds, others, rfl⟩ : ∃ ds, ofLines (number + 1) lines = .ok ds ∧ cs = d :: ds := by
          cases others : ofLines (number + 1) lines with
          | error fault =>
            rw [others] at read
            cases read
          | ok ds =>
            rw [others] at read
            cases read
            exact ⟨ds, rfl, rfl⟩
        rcases List.mem_cons.1 member with rfl | later
        · exact ⟨line, List.mem_cons_self, first⟩
        · obtain ⟨source, later, here⟩ := ih others c later
          exact ⟨source, List.mem_cons_of_mem line later, here⟩

/-- The lines of a list are read in order, each as a remark or as a condition. -/
theorem ofLines_toText (each : ∀ c ∈ cs, ∃ t, Condition.ofText? t = some c) (number : Nat) :
    ofLines number (cs.map Condition.toText ++ [[]]) =
      .ok ((cs.filter fun c => !c.readsAsRemark).map Condition.reread) := by
  induction cs generalizing number with
  | nil => rfl
  | cons c cs ih =>
    obtain ⟨t, read⟩ := each c List.mem_cons_self
    have others := ih (fun d member => each d (List.mem_cons_of_mem c member)) (number + 1)
    have line := Condition.isRemark_toText read
    have again : Condition.ofText? (trim c.toText) = some c.reread :=
      (Condition.ofText?_trim c.toText).trans (Condition.ofText?_toText read)
    rw [List.map_cons, List.cons_append, ofLines]
    simp only [line, again, others]
    cases remark : c.readsAsRemark with
    | true => simp [remark]
    | false => simp [remark, Except.map]

theorem splitOn_toText (oneLine : ∀ c ∈ cs, '\n' ∉ c.toText) :
    (toText cs).splitOn '\n' = cs.map Condition.toText ++ [[]] := by
  induction cs with
  | nil => rfl
  | cons c cs ih =>
    have written : toText (c :: cs) = c.toText ++ '\n' :: toText cs := by simp [toText]
    rw [written, List.splitOn_append_cons_self_of_not_mem (oneLine c List.mem_cons_self),
      ih fun d member => oneLine d (List.mem_cons_of_mem c member)]
    rfl

/-- What a list that was read is read as when it has been written. -/
theorem ofText_toText {t : Text} (read : ofText t = .ok cs) :
    ofText (toText cs) = .ok ((cs.filter fun c => !c.readsAsRemark).map Condition.reread) := by
  have each : ∀ c ∈ cs, ∃ line, Condition.ofText? line = some c ∧ '\n' ∉ line := by
    intro c member
    obtain ⟨line, piece, here⟩ := mem_ofLines read c member
    exact ⟨trim line, here, fun inside => notMem_of_mem_splitOn piece (trim_subset line inside)⟩
  have oneLine : ∀ c ∈ cs, '\n' ∉ c.toText := by
    intro c member
    obtain ⟨line, here, whole⟩ := each c member
    exact Condition.newline_notMem_toText here whole
  rw [ofText, splitOn_toText oneLine]
  exact ofLines_toText (fun c member => (each c member).imp fun _ read => read.1) 1

/-- A list that was read can be written and read again. Only host wildcards that look like remarks are lost; the
    others come back in order and match as they did, except for bypass entries that need a colon without a port. -/
theorem toText_preserves {t : Text} (read : ofText t = .ok cs) :
    ∃ cs', ofText (toText cs) = .ok cs' ∧
      List.Forall₂ (fun c c' => c.needsColon = false → c.Agrees c') (cs.filter fun c => !c.readsAsRemark) cs' := by
  refine ⟨_, ofText_toText read, List.forall₂_map_right_iff.2 (List.forall₂_same.2 ?_)⟩
  intro c member needless
  obtain ⟨line, _, here⟩ := mem_ofLines read c (List.mem_of_mem_filter member)
  exact Condition.agrees_reread here needless

/-- A wildcard that looks like a comment, next to an entry that is spelled without its colon. -/
theorem toText_preserves_respelled :
    ∃ cs, ofText "H: #x\nB: ::1:".toList = .ok cs ∧ cs = [.hostWildcard "#x".toList, .bypass "::1:".toList] ∧
      ∃ cs', ofText (toText cs) = .ok cs' ∧
        List.Forall₂ (fun c c' => c.needsColon = false → c.Agrees c') (cs.filter fun c => !c.readsAsRemark) cs' :=
  have read : ofText "H: #x\nB: ::1:".toList = .ok [.hostWildcard "#x".toList, .bypass "::1:".toList] := by
    decide +kernel
  ⟨_, read, rfl, toText_preserves read⟩

/-- Not every list comes back whole: a wildcard that begins like a comment is gone. -/
theorem toText_loses :
    ¬ ∀ (t : Text) (cs : RuleList), ofText t = .ok cs →
      ∃ cs', ofText (toText cs) = .ok cs' ∧ List.Forall₂ Condition.Agrees cs cs' := by
  intro preserved
  have read : ofText "H: #x".toList = .ok [.hostWildcard "#x".toList] := by decide +kernel
  obtain ⟨cs', again, each⟩ := preserved _ _ read
  have empty : ofText (toText [.hostWildcard "#x".toList]) = .ok [] := by decide +kernel
  rw [empty] at again
  cases again
  cases each

/-- Without its colon, this entry is the one for the machine itself. -/
example : ofText (toText [.bypass "<local>:".toList]) = .ok [.bypass "<local>".toList] := by decide +kernel

end RuleList
end ProxyRouting
