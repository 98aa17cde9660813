import ProxyRouting.HostPattern
import ProxyRouting.Proofs.Glob.Accepts

/-!
What a host wildcard means, and that its regular expression finds just that. A segment behind `*.` covers
the bare domain and whatever has a label boundary before it, one behind `**.` only what lies below; every
other segment is a glob for the whole host (`finds_hostWildcard`).
-/
namespace ProxyRouting.HostPattern
open Regex Glob

/-- A text that a label can follow: nothing, or one that ends in a dot. -/
def EndsLabel (x : Text) : Prop := x = [] ∨ x.getLast? = some '.'

/-- What a segment means for a host; a leading dot is read as `*.`. -/
def Accepts (segment host : Text) : Prop :=
  match expandDot segment with
  | '*' :: '*' :: '.' :: rest => accepts ('*' :: '.' :: rest) host
  | '*' :: '.' :: rest => ∃ x y, host = x ++ y ∧ EndsLabel x ∧ accepts rest y
  | segment => accepts segment host

/-- A label may begin behind the text. -/
theorem endsLabel_dot (x : Text) : EndsLabel (x ++ ['.']) := .inr (by simp)

/-- The item for the start of a label. -/
def labelPiece : Piece := ⟨labelStart, .atom, [.start, .char '.']⟩

theorem leadsThrough_labelPiece {x z : Text} :
    (∃ i, LeadsThrough (x ++ z) ([labelPiece].map Piece.pattern) i x.length) ↔ EndsLabel x := by
  simp only [List.map_cons, List.map_nil, LeadsThrough, exists_eq_right, labelPiece, labelStart, Pattern.Leads, EndsLabel]
  constructor
  · rintro ⟨i, ⟨rfl, empty⟩ | ⟨next, here⟩⟩
    · exact .inl (List.length_eq_zero_iff.1 empty)
    · rw [List.getElem?_append_left (by omega)] at here
      refine .inr ?_
      rw [List.getLast?_eq_getElem?, next]
      exact here
  · rintro (rfl | last)
    · exact ⟨0, .inl ⟨rfl, rfl⟩⟩
    · obtain ⟨before, rfl⟩ := List.getLast?_eq_some_iff.1 last
      exact ⟨before.length, .inr ⟨by simp, by simp⟩⟩

/-- A glob without a star at its end, which it may have: then anything may follow. -/
def dropStar (glob : Text) : Text := if glob.getLast? = some '*' then glob.dropLast else glob

theorem dropStar_append (glob : Text) :
    ∃ star, glob = dropStar glob ++ star ∧ (glob.getLast? = some '*' ∨ star = []) := by
  by_cases last : glob.getLast? = some '*'
  · obtain ⟨init, rfl⟩ := List.getLast?_eq_some_iff.1 last
    exact ⟨['*'], by simp [dropStar], .inl last⟩
  · exact ⟨[], by simp [dropStar, last], .inr rfl⟩

theorem accepts_dropStar (glob t : Text) : accepts glob t ↔
    ∃ y z, t = y ++ z ∧ accepts (dropStar glob) y ∧ (glob.getLast? = some '*' ∨ z = []) := by
  by_cases last : glob.getLast? = some '*'
  · obtain ⟨init, rfl⟩ := List.getLast?_eq_some_iff.1 last
    simp only [dropStar, last, ↓reduceIte, List.dropLast_concat, true_or, and_true, accepts_append]
    have star := accepts_stars 1
    simp only [List.replicate_one] at star
    simp [star]
  · simp [dropStar, last]

theorem charBody_ne_nil (c : Char) : charBody c ≠ [] := by
  unfold charBody
  split_ifs <;> simp

theorem getLast_charBody {c : Char} (noStar : c ≠ '*') : (charBody c).getLast? ≠ some '*' := by
  unfold charBody
  split_ifs <;> simp_all

/-- A `.*$` at the end of the glob's expression is its last star with the anchor. -/
theorem dropTail_body (rest : Text) :
    (Text.dropTail? ".*$".toList (body rest ++ ['$'])).getD (body rest ++ ['$']) =
      body (dropStar rest) ++ if isOpen true rest.getLast? then [] else ['$'] := by
  rcases List.eq_nil_or_concat rest with rfl | ⟨init, c, rfl⟩
  · rfl
  · rw [List.concat_eq_append]
    have split : body (init ++ [c]) = body init ++ charBody c := by simp [body]
    by_cases star : c = '*'
    · subst star
      have cut : Text.dropTail? ".*$".toList (body (init ++ ['*']) ++ ['$']) = some (body init) := by
        rw [Text.dropTail?_eq_some, split]
        simp [charBody]
      rw [cut]
      simp [dropStar, isOpen]
    · have uncut : Text.dropTail? ".*$".toList (body (init ++ [c]) ++ ['$']) = none := by
        rw [Option.eq_none_iff_forall_not_mem]
        intro front found
        have same := Text.dropTail?_eq_some.1 found
        have shorter : body init ++ charBody c = front ++ ['.', '*'] := by
          rw [split] at same
          exact List.append_cancel_right (same.trans (List.append_assoc front ['.', '*'] ['$']).symm)
        have last := congrArg List.getLast? shorter
        rw [List.getLast?_append] at last
        cases tail : (charBody c).getLast? with
        | none => exact charBody_ne_nil c (List.getLast?_eq_none_iff.1 tail)
        | some d =>
          rw [tail] at last
          simp at last
          exact getLast_charBody star (by rw [tail, last])
      rw [uncut]
      simp [dropStar, isOpen, star]

/-- The items of a segment. -/
def segmentPieces (segment : Text) : List Piece :=
  match expandDot segment with
  | '*' :: '*' :: '.' :: rest => formPieces true ('*' :: '.' :: rest)
  | '*' :: '.' :: rest => [labelPiece] ++ (pieces (dropStar rest) ++ closing (isOpen true rest.getLast?))
  | segment => formPieces true segment

theorem reads_segment (segment : Text) : Reads (segmentToRegex segment) (segmentPieces segment) := by
  unfold segmentToRegex
  simp only
  split
  · next form =>
    rw [segmentPieces, form]
    exact reads_toRegex true _
  · next form =>
    rw [segmentPieces, form, dropTail_body]
    exact reads_append reads_labelStart (reads_append (reads_body _) (reads_closing _))
  · next below domain =>
    unfold segmentPieces
    split
    · next form => exact absurd form (below _)
    · next form => exact absurd form (domain _)
    · exact reads_toRegex true _

/-- The regular expression of a segment finds something in exactly the hosts that the segment means. -/
theorem finds_segmentPieces (segment : Text) {host : Text} (oneLine : OneLine host) :
    Finds host (segmentPieces segment) ↔ Accepts segment host := by
  unfold segmentPieces Accepts
  generalize expandDot segment = segment
  split
  · exact finds_formPieces true _ oneLine
  · next rest =>
    rw [finds_glob_behind (fun x z whole => whole ▸ leadsThrough_labelPiece) _ _ oneLine]
    simp only [accepts_dropStar rest, isOpen, Bool.true_and, decide_eq_true_eq]
    constructor
    · rintro ⟨x, y, z, rfl, label, good, atEnd⟩
      exact ⟨x, y ++ z, rfl, label, y, z, rfl, good, atEnd⟩
    · rintro ⟨x, _, rfl, label, y, z, rfl, good, atEnd⟩
      exact ⟨x, y, z, rfl, label, good, atEnd⟩
  · exact finds_formPieces true _ oneLine

/-- Behind a star and a dot, a glob finds itself where a label begins, at the end of a text or before anything if it
    ends in a star. -/
theorem finds_labelled_self {x rest z : Text} (label : EndsLabel x) (free : rest.getLast? = some '*' ∨ z = []) :
    Finds (x ++ (rest ++ z)) ([labelPiece] ++ (pieces (dropStar rest) ++ closing (isOpen true rest.getLast?))) := by
  obtain ⟨star, whole, ended⟩ := dropStar_append rest
  refine (finds_taken_behind (fun x z whole => whole ▸ leadsThrough_labelPiece) (dropStar rest) _).2
    ⟨x, dropStar rest, star ++ z, ?_, label, takes_self _, ?_⟩
  · conv_lhs => rw [whole]
    simp
  · simp only [isOpen, Bool.true_and, decide_eq_true_eq]
    rcases ended with last | rfl
    · exact .inl last
    · exact free

/-- A segment finds itself. -/
theorem finds_segment_self (segment : Text) : Finds segment (segmentPieces segment) := by
  unfold segmentPieces
  split
  · next rest form =>
    have starred : segment = ['*'] ++ '*' :: '.' :: rest := by
      unfold expandDot at form
      split at form
      · next dot =>
        rw [(List.cons.inj form).2] at dot
        cases dot
      · exact form
    rw [starred]
    exact finds_formPieces_self ['*'] _ (.inr rfl)
  · next rest form =>
    have dotted : ∃ x, segment = x ++ ['.'] ++ (rest ++ []) := by
      unfold expandDot at form
      split at form
      · exact ⟨[], by simpa using (List.cons.inj form).2⟩
      · exact ⟨['*'], by simpa using form⟩
    obtain ⟨x, whole⟩ := dotted
    rw [whole]
    exact finds_labelled_self (endsLabel_dot x) (.inr rfl)
  · next below domain =>
    have undotted : expandDot segment = segment := by
      refine if_neg fun head => ?_
      obtain ⟨rest, whole⟩ := List.head?_eq_some_iff.1 head
      exact domain rest (by simp [expandDot, whole])
    rw [undotted]
    exact finds_formPieces_self [] segment (.inl rfl)

theorem getLast_expandDot (segment : Text) : (expandDot segment).getLast? = segment.getLast? := by
  unfold expandDot
  split
  · next head =>
    obtain ⟨rest, rfl⟩ := List.head?_eq_some_iff.1 head
    rw [List.getLast?_cons_cons]
  · rfl

/-- What a segment finds something in ends as the segment does, unless that is in a wildcard or a dot. -/
theorem getLast_of_finds_segment {segment host : Text} {c : Char} (last : segment.getLast? = some c)
    (plain : c ≠ '*' ∧ c ≠ '?' ∧ c ≠ '.') (found : Finds host (segmentPieces segment)) : host.getLast? = some c := by
  have form : ∃ front glob, segmentPieces segment = front ++ (pieces glob ++ closing false) ∧ glob.getLast? = some c := by
    rw [← getLast_expandDot] at last
    unfold segmentPieces
    split
    · next rest form =>
      rw [form, List.getLast?_cons_cons] at last
      exact formPieces_ends last plain.1
    · next rest form =>
      have ends : rest.getLast? = some c := by
        rw [form, List.getLast?_cons_cons] at last
        cases rest with
        | nil => exact absurd (Option.some.inj last).symm plain.2.2
        | cons d rest => rwa [List.getLast?_cons_cons] at last
      exact ⟨[labelPiece], rest, by simp [dropStar, isOpen, ends, plain.1], ends⟩
    · exact formPieces_ends last plain.1
  obtain ⟨front, glob, whole, last⟩ := form
  rw [whole] at found
  exact getLast_of_finds last plain.1 plain.2.1 found

/-- The alternatives of a list of segments. -/
def alternatives (segments : List Text) : List Alternative :=
  segments.map fun segment => ⟨segmentToRegex segment, segmentPieces segment, reads_segment segment⟩

theorem toRegex_eq (list : Text) : toRegex list = sourceOf (alternatives (Glob.segments list)) := by
  simp [toRegex, sourceOf, alternatives, Function.comp_def]

/-- The regular expression of a host wildcard with at least one segment finds something in a host without line
    ends just when one of the segments accepts the host. -/
theorem finds_hostWildcard (list host : Text) (some : Glob.segments list ≠ []) (oneLine : OneLine host) :
    (Search.ofSource (toRegex list)).finds host ↔ ∃ segment ∈ Glob.segments list, Accepts segment host := by
  have some' : alternatives (Glob.segments list) ≠ [] := by simpa [alternatives] using some
  rw [toRegex_eq, finds_alternatives some']
  constructor
  · rintro ⟨_, member, found⟩
    obtain ⟨segment, listed, rfl⟩ := List.mem_map.1 member
    exact ⟨segment, listed, (finds_segmentPieces segment oneLine).1 found⟩
  · rintro ⟨segment, listed, good⟩
    exact ⟨_, List.mem_map_of_mem listed, (finds_segmentPieces segment oneLine).2 good⟩

/-- A host below a domain, and a domain in a list for what is below it. -/
theorem finds_hostWildcard_subdomain :
    (Glob.segments "*.example.com|**.b.org".toList ≠ [] ∧ OneLine "a.example.com".toList ∧
      (Search.ofSource (toRegex "*.example.com|**.b.org".toList)).finds "a.example.com".toList = true) ∧
    Glob.segments "|**.b.org".toList ≠ [] ∧ OneLine "b.org".toList ∧
      (Search.ofSource (toRegex "|**.b.org".toList)).finds "b.org".toList = false := by
  have two : Glob.segments "*.example.com|**.b.org".toList = ["*.example.com".toList, "**.b.org".toList] := by decide
  have one : Glob.segments "|**.b.org".toList = ["**.b.org".toList] := by decide
  have some : Glob.segments "*.example.com|**.b.org".toList ≠ [] := by decide
  have some' : Glob.segments "|**.b.org".toList ≠ [] := by decide
  have oneLine : OneLine "a.example.com".toList := Text.forall_mem_of_all (by decide)
  have oneLine' : OneLine "b.org".toList := Text.forall_mem_of_all (by decide)
  refine ⟨⟨some, oneLine, (finds_hostWildcard _ _ some oneLine).2 ?_⟩, some', oneLine', ?_⟩
  · have accepted : Accepts "*.example.com".toList "a.example.com".toList :=
      ⟨"a.".toList, "example.com".toList, rfl, .inr rfl, by decide⟩
    exact ⟨_, by rw [two]; exact List.mem_cons_self, accepted⟩
  · rw [← Bool.not_eq_true, finds_hostWildcard _ _ some' oneLine', one]
    rintro ⟨segment, member, accepted⟩
    cases List.mem_singleton.1 member
    have missed : accepts "*.b.org".toList "b.org".toList = false := by decide
    exact Bool.noConfusion (missed.symm.trans accepted)

end ProxyRouting.HostPattern
