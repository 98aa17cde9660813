import ProxyRouting.Proofs.Text.Digits
import ProxyRouting.Text.Blank

/-!
Cutting and trimming. A cut at a separator is the first one there is, or the last one, so a text put together
around a separator is taken apart at the same place when the one side has no other; a text with no white space
at its ends is trimmed already.
-/
namespace ProxyRouting.Text

theorem dropLead?_append (lead t : Text) : dropLead? lead (lead ++ t) = some t := dropLead?_eq_some.2 rfl

/-- No text before the place of a cut is followed by the separator. -/
theorem length_le_of_cut? {sep t before after : Text} (found : cut? sep t = some (before, after))
    (front back : Text) (same : t = front ++ sep ++ back) : before.length ≤ front.length := by
  induction t generalizing before front with
  | nil =>
    have := cut?_eq found
    simp at this
    simp [this]
  | cons c t ih =>
    rw [cut?] at found
    split at found
    · cases found
      exact Nat.zero_le _
    · next elsewhere =>
      obtain ⟨⟨b, a⟩, later, pair⟩ := Option.map_eq_some_iff.1 found
      cases pair
      cases front with
      | nil =>
        rw [same, List.nil_append, dropLead?_append] at elsewhere
        cases elsewhere
      | cons d front =>
        obtain ⟨rfl, rest⟩ := List.cons.inj same
        exact Nat.succ_le_succ (ih later front rest)

theorem cut?_isSome_of_append (sep front back : Text) : (cut? sep (front ++ sep ++ back)).isSome := by
  induction front with
  | nil =>
    cases sep with
    | nil => cases back <;> simp [cut?, dropLead?]
    | cons s sep =>
      rw [List.nil_append, List.cons_append, cut?, ← List.cons_append, dropLead?_append]
      rfl
  | cons c front ih =>
    rw [List.cons_append, List.cons_append, cut?]
    split
    · rfl
    · simpa using ih

/-- There is no place to cut exactly if the separator is no part of the text. -/
theorem cut?_eq_none {sep t : Text} : cut? sep t = none ↔ ¬ sep <:+: t := by
  constructor
  · rintro none ⟨front, back, rfl⟩
    have found := cut?_isSome_of_append sep front back
    rw [none] at found
    cases found
  · intro absent
    rw [Option.eq_none_iff_forall_ne_some]
    rintro ⟨before, after⟩ found
    exact absent ⟨before, after, (cut?_eq found).symm⟩

/-- The place of a cut does not depend on what follows the separator. -/
theorem cut?_append {sep t before after : Text} (found : cut? sep t = some (before, after)) (after' : Text) :
    cut? sep (before ++ sep ++ after') = some (before, after') := by
  obtain ⟨⟨b, a⟩, again⟩ := Option.isSome_iff_exists.1 (cut?_isSome_of_append sep before after')
  have whole : before ++ sep ++ after' = b ++ sep ++ a := cut?_eq again
  have notLater : b.length ≤ before.length := length_le_of_cut? again before after' rfl
  -- up to the end of the separator both texts are the same, so an earlier place were one in the first text, too
  obtain ⟨rest, inside⟩ : b ++ sep <+: before ++ sep :=
    List.prefix_of_prefix_length_le (whole ▸ List.prefix_append _ a) (List.prefix_append _ after') (by simpa using notLater)
  have notEarlier : before.length ≤ b.length :=
    length_le_of_cut? found b (rest ++ after) (by rw [cut?_eq found, ← inside, List.append_assoc])
  rw [List.append_assoc, List.append_assoc] at whole
  obtain ⟨rfl, behind⟩ := List.append_inj whole (Nat.le_antisymm notEarlier notLater)
  rw [again, List.append_cancel_left behind]

theorem cut?_cons {sep c : Char} (other : c ≠ sep) (t : Text) :
    cut? [sep] (c :: t) = (cut? [sep] t).map fun (before, after) => (c :: before, after) := by
  rw [cut?]
  simp [dropLead?, Ne.symm other]

theorem cut?_single {sep : Char} {before : Text} (first : sep ∉ before) (after : Text) :
    cut? [sep] (before ++ sep :: after) = some (before, after) := by
  induction before with
  | nil => simp [cut?, dropLead?]
  | cons c before ih =>
    obtain ⟨other, others⟩ := not_or.1 (List.mem_cons.not.1 first)
    rw [List.cons_append, cut?_cons (Ne.symm other), ih others]
    rfl

theorem cut?_none {sep : Char} {t : Text} : cut? [sep] t = none ↔ sep ∉ t := by
  induction t with
  | nil => simp [cut?]
  | cons c t ih =>
    by_cases same : c = sep
    · subst same
      simp [cut?, dropLead?]
    · rw [cut?_cons same, Option.map_eq_none_iff, ih, List.mem_cons]
      simp [Ne.symm same]

theorem cut?_single_append {sep : Char} {front : Text} (clear : sep ∉ front) (t : Text) :
    cut? [sep] (front ++ t) = (cut? [sep] t).map fun (before, after) => (front ++ before, after) := by
  induction front with
  | nil => simp
  | cons c front ih =>
    obtain ⟨other, others⟩ := not_or.1 (List.mem_cons.not.1 clear)
    rw [List.cons_append, cut?_cons (Ne.symm other), ih others, Option.map_map]
    rfl

theorem notMem_of_cut? {sep : Char} {t before after : Text} (found : cut? [sep] t = some (before, after)) :
    sep ∉ before := by
  intro member
  obtain ⟨front, back, rfl⟩ := List.append_of_mem member
  have shorter := length_le_of_cut? found front (back ++ [sep] ++ after)
    (by rw [cut?_eq found]; simp)
  have longer : front.length < (front ++ sep :: back).length := by simp
  omega

theorem contains_single {c : Char} {t : Text} : contains [c] t = true ↔ c ∈ t := by
  rw [contains, Option.isSome_iff_ne_none, ne_eq, cut?_none, not_not]

theorem cutLast?_none {sep : Char} {t : Text} : cutLast? sep t = none ↔ sep ∉ t := by
  induction t with
  | nil => simp [cutLast?]
  | cons c t ih =>
    rw [cutLast?]
    split
    · next found =>
      have inside : sep ∈ t := by
        rw [cutLast?_eq found]
        simp
      simp [inside]
    · next none =>
      by_cases same : c = sep
      · simp [same]
      · simp [same, Ne.symm same, ih.1 none]

theorem cutLast?_single {sep : Char} (before : Text) {after : Text} (last : sep ∉ after) :
    cutLast? sep (before ++ sep :: after) = some (before, after) := by
  induction before with
  | nil => rw [List.nil_append, cutLast?, cutLast?_none.2 last, if_pos rfl]
  | cons c before ih => rw [List.cons_append, cutLast?, ih]

theorem notMem_of_cutLast? {sep : Char} {t before after : Text} (found : cutLast? sep t = some (before, after)) :
    sep ∉ after := by
  induction t generalizing before with
  | nil => cases found
  | cons c t ih =>
    rw [cutLast?] at found
    split at found
    · next later =>
      cases found
      exact ih later
    · next none =>
      split at found
      · cases found
        exact cutLast?_none.1 none
      · cases found

/-- No piece of a text that is split has the separator in it. -/
theorem notMem_of_mem_splitOn {sep : Char} {t piece : Text} (member : piece ∈ t.splitOn sep) : sep ∉ piece := by
  by_cases inside : sep ∈ t
  · obtain ⟨before, after, whole, first⟩ := List.eq_append_cons_of_mem inside
    rw [whole, List.splitOn_append_cons_self_of_not_mem first] at member
    rcases List.mem_cons.1 member with rfl | later
    · exact first
    · exact notMem_of_mem_splitOn later
  · rw [List.splitOn_eq_singleton inside, List.mem_singleton] at member
    rwa [member]
termination_by t.length
decreasing_by
  rw [whole, List.length_append, List.length_cons]
  omega

theorem join_cons (sep t : Text) (ts : List Text) : join sep (t :: ts) = t ++ ts.flatMap (sep ++ ·) := by
  induction ts generalizing t with
  | nil => simp [join]
  | cons u ts ih => simp [join, ih]

theorem join_append (sep : Text) (front : List Text) {back : List Text} (present : back ≠ []) :
    join sep (front ++ back) = front.flatMap (· ++ sep) ++ join sep back := by
  induction front with
  | nil => rfl
  | cons t front ih =>
    have more : front ++ back ≠ [] := by simp [present]
    rw [List.cons_append, join.eq_3 sep t _ more, ih]
    simp

/-- What is not between the pieces is in one of them. -/
theorem mem_join {sep : Text} {c : Char} (outside : c ∉ sep) (ts : List Text) : c ∈ join sep ts ↔ ∃ t ∈ ts, c ∈ t := by
  cases ts with
  | nil => simp [join]
  | cons t ts => simp [join_cons, outside]

/-- The pieces of a text that was split, joined again. -/
theorem join_splitOn (sep : Char) (t : Text) : join [sep] (t.splitOn sep) = t := by
  have joined (ts : List Text) : join [sep] ts = [sep].intercalate ts := by
    induction ts using join.induct with
    | case1 => rfl
    | case2 t => simp [join, List.intercalate]
    | case3 t ts some ih =>
      obtain ⟨u, ts, rfl⟩ := List.exists_cons_of_ne_nil some
      rw [join.eq_3 _ _ _ some, ih, List.intercalate_cons_cons]
  rw [joined, List.intercalate_splitOn]

/-- Neither end of the text is white space. -/
structure Trimmed (t : Text) : Prop where
  front : Stops isBlank t
  back : Stops isBlank t.reverse

theorem trimmed_of_solid {t : Text} (solid : ∀ c ∈ t, isBlank c = false) : Trimmed t :=
  ⟨fun c head => solid c (List.mem_of_mem_head? head),
    fun c last => solid c (List.mem_reverse.1 (List.mem_of_mem_head? last))⟩

theorem trimmed_joined {s t : Text} {c : Char} (front : ∀ d ∈ s, isBlank d = false) (between : isBlank c = false)
    (back : ∀ d ∈ t, isBlank d = false) : Trimmed (s ++ c :: t) :=
  trimmed_of_solid (List.forall_mem_append.2 ⟨front, List.forall_mem_cons.2 ⟨between, back⟩⟩)

theorem trim_of_trimmed {t : Text} (trimmed : Trimmed t) : trim t = t := by
  have untouched {t : Text} (stops : Stops isBlank t) : t.dropWhile isBlank = t :=
    dropWhile_run (by simp : ∀ c ∈ [], isBlank c = true) stops
  rw [trim, trimStart, untouched trimmed.front, trimEnd, untouched trimmed.back, List.reverse_reverse]

theorem stops_dropWhile (kind : Char → Bool) (t : Text) : Stops kind (t.dropWhile kind) := by
  intro c head
  have := List.head?_dropWhile_not kind t
  rw [head] at this
  simpa using this

/-- What is dropped at the end of a text has characters of the kind only. -/
theorem dropEnd_append (kind : Char → Bool) (t : Text) :
    ∃ back, t = (t.reverse.dropWhile kind).reverse ++ back ∧ ∀ c ∈ back, kind c = true := by
  refine ⟨(t.reverse.takeWhile kind).reverse, ?_, ?_⟩
  · rw [← List.reverse_append, List.takeWhile_append_dropWhile, List.reverse_reverse]
  · exact fun c member => List.mem_takeWhile_imp (List.mem_reverse.1 member)

/-- White space at the end is all that trimming there takes away. -/
theorem trimEnd_append (t : Text) : ∃ back, t = trimEnd t ++ back ∧ ∀ c ∈ back, isBlank c = true :=
  dropEnd_append isBlank t

theorem stops_trimEnd {kind : Char → Bool} {t : Text} (stops : Stops kind t) : Stops kind (trimEnd t) := by
  obtain ⟨back, whole, _⟩ := trimEnd_append t
  rw [whole] at stops
  intro c head
  refine stops c ?_
  rw [List.head?_append, Option.mem_def.1 head]
  rfl

/-- White space is all that trimming takes away. -/
theorem trim_append (t : Text) : ∃ front back, t = front ++ trim t ++ back ∧ (∀ c ∈ front, isBlank c = true) ∧
    ∀ c ∈ back, isBlank c = true := by
  obtain ⟨back, whole, blank⟩ := trimEnd_append (trimStart t)
  refine ⟨t.takeWhile isBlank, back, ?_, fun c member => List.mem_takeWhile_imp member, blank⟩
  rw [List.append_assoc, trim, ← whole, trimStart, List.takeWhile_append_dropWhile]

theorem trim_subset (t : Text) : trim t ⊆ t := by
  obtain ⟨front, back, whole, _, _⟩ := trim_append t
  intro c member
  rw [whole]
  simp [member]

theorem trimmed_trim (t : Text) : Trimmed (trim t) := by
  constructor
  · exact stops_trimEnd (stops_dropWhile isBlank t)
  · rw [trim, trimEnd, List.reverse_reverse]
    exact stops_dropWhile isBlank _

/-- White space around a trimmed text is all that is trimmed. -/
theorem trim_surrounded {front t back : Text} (blank : ∀ c ∈ front, isBlank c = true) (trimmed : Trimmed t)
    (blank' : ∀ c ∈ back, isBlank c = true) : trim (front ++ t ++ back) = t := by
  by_cases empty : t = []
  · have all : ∀ c ∈ front ++ t ++ back, isBlank c = true := by
      rw [empty, List.append_nil]
      intro c member
      exact (List.mem_append.1 member).elim (blank c) (blank' c)
    rw [trim, trimStart, List.dropWhile_eq_nil_iff.2 all, empty]
    rfl
  · have start : trimStart (front ++ t ++ back) = t ++ back := by
      rw [List.append_assoc]
      exact dropWhile_run blank (stops_append trimmed.front empty back)
    have reversed : ∀ c ∈ back.reverse, isBlank c = true := fun c member => blank' c (List.mem_reverse.1 member)
    rw [trim, start, trimEnd, List.reverse_append, dropWhile_run reversed trimmed.back, List.reverse_reverse]

/-- What is trimmed at its end first is trimmed to the same. -/
theorem trim_trimEnd (t : Text) : trim (trimEnd t) = trim t := by
  obtain ⟨back, whole, blank⟩ := trimEnd_append t
  obtain ⟨front, back', whole', blank', blank''⟩ := trim_append (trimEnd t)
  have same : t = front ++ trim (trimEnd t) ++ (back' ++ back) := by
    rw [← List.append_assoc, ← whole', ← whole]
  have around : ∀ c ∈ back' ++ back, isBlank c = true := fun c member =>
    (List.mem_append.1 member).elim (blank'' c) (blank c)
  rw [← trim_surrounded blank' (trimmed_trim (trimEnd t)) around, ← same]

/-- Behind a trimmed text, only the end is left to trim. -/
theorem trim_append_of_trimmed {s : Text} (trimmed : Trimmed s) (present : s ≠ []) (t : Text) :
    trim (s ++ t) = s ++ trimEnd t := by
  have front : trimStart (s ++ t) = s ++ t :=
    dropWhile_run (by simp : ∀ c ∈ [], isBlank c = true) (stops_append trimmed.front present t)
  have back : s.reverse.dropWhile isBlank = s.reverse :=
    dropWhile_run (by simp : ∀ c ∈ [], isBlank c = true) trimmed.back
  rw [trim, front, trimEnd, trimEnd, List.reverse_append, List.dropWhile_append, back]
  split
  · next blank =>
    rw [List.isEmpty_iff.1 blank]
    simp
  · simp

end ProxyRouting.Text
