import ProxyRouting.Proofs.Regex.Reading

/-!
What a source with alternatives finds. Its alternatives are sources whose items are known; the source with
bars between them compiles, and finds something in a text when the items of one of them lead, one after the
other, from some position of the text to another.
-/
namespace ProxyRouting.Regex

/-- The patterns, one after the other, lead from one position of the text to another. -/
def LeadsThrough (text : Text) : List Pattern → Nat → Nat → Prop
  | [], i, j => i = j
  | p :: ps, i, j => ∃ k, p.Leads text i k ∧ LeadsThrough text ps k j

theorem leadsThrough_append {text : Text} {ps qs : List Pattern} {i j : Nat} :
    LeadsThrough text (ps ++ qs) i j ↔ ∃ k, LeadsThrough text ps i k ∧ LeadsThrough text qs k j := by
  induction ps generalizing i with
  | nil => simp [LeadsThrough]
  | cons p ps ih =>
    simp only [List.cons_append, LeadsThrough, ih]
    constructor
    · rintro ⟨k, first, l, others, last⟩
      exact ⟨l, ⟨k, first, others⟩, last⟩
    · rintro ⟨l, ⟨k, first, others⟩, last⟩
      exact ⟨k, first, l, others, last⟩

theorem leadsThrough_le {text : Text} {ps : List Pattern} {i j : Nat} (way : LeadsThrough text ps i j) : i ≤ j := by
  induction ps generalizing i with
  | nil => exact Nat.le_of_eq way
  | cons p ps ih =>
    obtain ⟨k, first, others⟩ := way
    exact Nat.le_trans (p.leads_le first) (ih others)

theorem leads_sequence {text : Text} (pieces : List Piece) {i j : Nat} :
    (sequence pieces).Leads text i j ↔ LeadsThrough text (pieces.reverse.map Piece.pattern) i j := by
  induction pieces generalizing j with
  | nil => rfl
  | cons p before ih =>
    rw [List.reverse_cons, List.map_append, leadsThrough_append]
    cases before with
    | nil => simp [sequence, LeadsThrough]
    | cons q before => simp only [sequence, Pattern.Leads, ih, LeadsThrough, List.map_cons, List.map_nil, exists_eq_right]

theorem refersBack_sequence {pieces : List Piece} (plain : ∀ p ∈ pieces, p.pattern.refersBack = false) :
    (sequence pieces).refersBack = false := by
  induction pieces with
  | nil => rfl
  | cons p before ih =>
    have others := ih fun q member => plain q (List.mem_cons_of_mem p member)
    cases before with
    | nil => exact plain p (by simp)
    | cons q before => simp [sequence, Pattern.refersBack, others, plain p (by simp)]

theorem leads_choice {text : Text} {ps : List Pattern} (some : ps ≠ []) {i j : Nat} :
    (choice ps).Leads text i j ↔ ∃ p ∈ ps, p.Leads text i j := by
  induction ps with
  | nil => exact absurd rfl some
  | cons p ps ih =>
    cases ps with
    | nil => simp [choice]
    | cons q ps => simp [choice, Pattern.Leads, ih]

theorem refersBack_choice {ps : List Pattern} (plain : ∀ p ∈ ps, p.refersBack = false) :
    (choice ps).refersBack = false := by
  induction ps with
  | nil => rfl
  | cons p ps ih =>
    have others := ih fun q member => plain q (List.mem_cons_of_mem p member)
    cases ps with
    | nil => exact plain p (by simp)
    | cons q ps => simp [choice, Pattern.refersBack, others, plain p (by simp)]

/-- Marks do not decide where a pattern leads. -/
theorem leads_keepGroups {text : Text} (used : List Nat) (p : Pattern) (i j : Nat) :
    (p.keepGroups used).Leads text i j ↔ p.Leads text i j := by
  induction p generalizing i j with
  | seq p q ihp ihq => simp only [Pattern.keepGroups, Pattern.Leads, ihp, ihq]
  | alt p q ihp ihq => simp only [Pattern.keepGroups, Pattern.Leads, ihp, ihq]
  | loop p least most greedy ih => simp only [Pattern.keepGroups, Pattern.Leads, rounds_congr ih]
  | group index p ih =>
    by_cases wanted : index ∈ used <;> simp only [Pattern.keepGroups, wanted, ↓reduceIte, Pattern.Leads, ih]
  | look negated p ih => cases negated <;> simp only [Pattern.keepGroups, Pattern.Leads, ih]
  | behind negated width p ih => cases negated <;> simp only [Pattern.keepGroups, Pattern.Leads, ih]
  | _ => rfl

theorem refersBack_keepGroups (used : List Nat) (p : Pattern) : (p.keepGroups used).refersBack = p.refersBack := by
  induction p with
  | seq p q ihp ihq => simp only [Pattern.keepGroups, Pattern.refersBack, ihp, ihq]
  | alt p q ihp ihq => simp only [Pattern.keepGroups, Pattern.refersBack, ihp, ihq]
  | group index p ih =>
    by_cases wanted : index ∈ used <;> simp only [Pattern.keepGroups, wanted, ↓reduceIte, Pattern.refersBack, ih]
  | loop p least most greedy ih => exact ih
  | look negated p ih => exact ih
  | behind negated width p ih => exact ih
  | _ => rfl

/-- Behind any text, the patterns lead over just those starts of the rest that are of the kind. -/
def Covers (ps : List Pattern) (kind : Text → Prop) : Prop :=
  ∀ x t k, LeadsThrough (x ++ t) ps x.length k ↔ ∃ y z, t = y ++ z ∧ k = (x ++ y).length ∧ kind y

section
variable {ps qs : List Pattern} {kind kind' : Text → Prop}

theorem Covers.congr (covers : Covers ps kind) (same : ∀ y, kind y ↔ kind' y) : Covers ps kind' := by
  intro x t k
  rw [covers x t k]
  simp only [same]

theorem covers_nil : Covers [] (· = []) := by
  intro x t k
  constructor
  · rintro rfl
    exact ⟨[], t, rfl, by rw [List.append_nil], rfl⟩
  · rintro ⟨_, z, _, rfl, rfl⟩
    rw [List.append_nil]
    rfl

theorem covers_append (first : Covers ps kind) (second : Covers qs kind') :
    Covers (ps ++ qs) fun y => ∃ u v, y = u ++ v ∧ kind u ∧ kind' v := by
  intro x t k
  rw [leadsThrough_append]
  constructor
  · rintro ⟨m, way, others⟩
    obtain ⟨u, rest, rfl, rfl, good⟩ := (first x t m).1 way
    rw [← List.append_assoc] at others
    obtain ⟨v, z, rfl, rfl, good'⟩ := (second (x ++ u) rest k).1 others
    exact ⟨u ++ v, z, by rw [List.append_assoc], by rw [List.append_assoc], u, v, rfl, good, good'⟩
  · rintro ⟨_, z, rfl, rfl, u, v, rfl, good, good'⟩
    refine ⟨(x ++ u).length, (first x _ _).2 ⟨u, v ++ z, List.append_assoc u v z, rfl, good⟩, ?_⟩
    have others := (second (x ++ u) (v ++ z) (x ++ u ++ v).length).2 ⟨v, z, rfl, rfl, good'⟩
    simpa only [List.append_assoc] using others

theorem covers_oneOf (ranges : List CharRange) :
    Covers [.oneOf ranges] fun y => ∃ c, y = [c] ∧ ranges.any (·.contains c) = true := by
  intro x t k
  simp only [LeadsThrough, Pattern.Leads, exists_eq_right]
  constructor
  · rintro ⟨rfl, c, here, inside⟩
    cases t with
    | nil => simp at here
    | cons d z =>
      obtain rfl : d = c := by simpa using here
      exact ⟨[d], z, rfl, by simp, d, rfl, inside⟩
  · rintro ⟨_, z, rfl, rfl, c, rfl, inside⟩
    exact ⟨by simp, c, by simp, inside⟩

theorem covers_char (c : Char) : Covers [.char c] (· = [c]) := by
  intro x t k
  simp only [LeadsThrough, Pattern.Leads, exists_eq_right]
  constructor
  · rintro ⟨rfl, here⟩
    cases t with
    | nil => simp at here
    | cons d z =>
      obtain rfl : d = c := by simpa using here
      exact ⟨[d], z, rfl, by simp, rfl⟩
  · rintro ⟨_, z, rfl, rfl, rfl⟩
    simp

/-- Rounds of single characters lead over so many of them. -/
theorem rounds_oneOf (ranges : List CharRange) (n : Nat) (x t : Text) (k : Nat) :
    Rounds ((Pattern.oneOf ranges).Leads (x ++ t)) n x.length k ↔
      ∃ y z, t = y ++ z ∧ k = (x ++ y).length ∧ y.length = n ∧ ∀ c ∈ y, ranges.any (·.contains c) = true := by
  induction n generalizing x t with
  | zero =>
    constructor
    · rintro rfl
      exact ⟨[], t, rfl, by rw [List.append_nil], rfl, List.forall_mem_nil _⟩
    · rintro ⟨y, z, _, rfl, none, _⟩
      rw [List.length_eq_zero_iff.1 none, List.append_nil]
      rfl
  | succ n ih =>
    have step (m : Nat) := covers_oneOf ranges x t m
    simp only [LeadsThrough, exists_eq_right] at step
    simp only [Rounds, step]
    constructor
    · rintro ⟨_, ⟨_, rest, rfl, rfl, c, rfl, inside⟩, others⟩
      rw [← List.append_assoc] at others
      obtain ⟨y, z, rfl, rfl, count, each⟩ := (ih (x ++ [c]) rest).1 others
      exact ⟨c :: y, z, rfl, by simp, by simp [count], List.forall_mem_cons.2 ⟨inside, each⟩⟩
    · rintro ⟨y, z, rfl, rfl, count, each⟩
      obtain ⟨c, y, rfl⟩ := List.exists_cons_of_length_eq_add_one count
      obtain ⟨inside, each⟩ := List.forall_mem_cons.1 each
      have others := (ih (x ++ [c]) (y ++ z)).2 ⟨y, z, rfl, by simp, Nat.succ.inj count, each⟩
      rw [List.append_assoc] at others
      exact ⟨(x ++ [c]).length, ⟨[c], y ++ z, rfl, rfl, c, rfl, inside⟩, others⟩

/-- A run of at least so many characters of some ranges. -/
theorem covers_run (ranges : List CharRange) (least : Nat) (greedy : Bool) :
    Covers [.loop (.oneOf ranges) least none greedy] fun y =>
      least ≤ y.length ∧ ∀ c ∈ y, ranges.any (·.contains c) = true := by
  intro x t k
  simp only [LeadsThrough, Pattern.Leads.eq_8, exists_eq_right, rounds_oneOf]
  constructor
  · rintro ⟨_, enough, _, y, z, rfl, rfl, rfl, each⟩
    exact ⟨y, z, rfl, rfl, enough, each⟩
  · rintro ⟨y, z, rfl, rfl, enough, each⟩
    exact ⟨y.length, enough, by simp, y, z, rfl, rfl, rfl, each⟩

end
/-- An alternative of a source: how it is written, and the items it is read as. -/
structure Alternative where
  source : Text
  pieces : List Piece
  reads : Reads source pieces

/-- The source of alternatives, with bars between them. -/
def sourceOf (alternatives : List Alternative) : Text := Text.join ['|'] (alternatives.map (·.source))

/-- The items of alternatives, in the order in which a group holds them. -/
def itemsOf (alternatives : List Alternative) : List (List Piece) := alternatives.map (·.pieces.reverse)

/-- The pattern of alternatives. -/
def patternOf (alternatives : List Alternative) : Pattern := choice ((itemsOf alternatives).map sequence)

/-- The groups of a builder that stands outside all of them, its alternatives in order. -/
structure Holds (b : Builder) (items : List (List Piece)) : Prop where
  ground : b.outer = []
  group : b.frame.group = .plain
  items_eq : (b.frame.pieces :: b.frame.before).reverse = items
  numbered : b.numbered = false
  used : b.used = []

theorem pieces_pushed (pieces : List Piece) (b : Builder) :
    pieces.foldl Builder.push b =
      { b with frame := { b.frame with pieces := pieces.reverse ++ b.frame.pieces } } := by
  induction pieces generalizing b with
  | nil => rfl
  | cons p pieces ih => simp [ih, Builder.push]

/-- Reading alternatives one after the other leaves each in its place. -/
theorem alternatives_hold (first : Alternative) (others : List Alternative) (done : List (List Piece)) :
    ∃ tokens, Spells (sourceOf (first :: others)) tokens ∧
      ∀ b, Holds b (done ++ [[]]) →
        ∃ after, tokens.foldlM Builder.step b = some after ∧ Holds after (done ++ itemsOf (first :: others)) := by
  induction others generalizing first done with
  | nil =>
    obtain ⟨tokens, spelled, added⟩ := first.reads.reading
    refine ⟨tokens, spelled, fun b holds => ⟨_, added b holds.ground, ?_⟩⟩
    obtain ⟨ground, group, items, numbered, used⟩ := holds
    have split := congrArg List.reverse items
    simp only [List.reverse_reverse, List.reverse_append, List.reverse_cons, List.reverse_nil, List.nil_append,
      List.cons_append, List.cons.injEq] at split
    rw [pieces_pushed]
    refine ⟨ground, group, ?_, numbered, used⟩
    simp [split.1, split.2, itemsOf]
  | cons second others ih =>
    obtain ⟨tokens, spelled, added⟩ := first.reads.reading
    obtain ⟨tokens', spelled', builds⟩ := ih second (done ++ [first.pieces.reverse])
    refine ⟨tokens ++ ([.bar] ++ tokens'), ?_, fun b holds => ?_⟩
    · have joined : sourceOf (first :: second :: others) = first.source ++ (['|'] ++ sourceOf (second :: others)) := by
        simp [sourceOf, Text.join]
      rw [joined]
      exact spells_append spelled (spells_append spells_bar spelled')
    · obtain ⟨ground, group, items, numbered, used⟩ := holds
      have split := congrArg List.reverse items
      simp only [List.reverse_reverse, List.reverse_append, List.reverse_cons, List.reverse_nil, List.nil_append,
        List.cons_append, List.cons.injEq] at split
      rw [List.foldlM_append, added b ground, pieces_pushed]
      obtain ⟨after, built, held⟩ := builds
        { b with frame := { b.frame with before := first.pieces.reverse :: b.frame.before, pieces := [] } }
        ⟨ground, group, by simp [split.2], numbered, used⟩
      refine ⟨after, ?_, by simpa [itemsOf] using held⟩
      rw [← built]
      simp [Builder.step, split.1]

theorem tokenize_of_spells {source : Text} {tokens : List Token} (spelled : Spells source tokens) :
    tokenize source = .ok tokens := by
  have whole := spelled.reads (.of source) 0 [] (by simp [Calm])
  rw [List.append_nil] at whole
  rw [tokenize, whole, tokensFrom]
  simp [Except.map]

theorem compile_alternatives {alternatives : List Alternative} (some : alternatives ≠ []) :
    compile (sourceOf alternatives) = .ok ((patternOf alternatives).keepGroups []) := by
  obtain ⟨first, others, rfl⟩ := List.exists_cons_of_ne_nil some
  obtain ⟨tokens, spelled, builds⟩ := alternatives_hold first others []
  obtain ⟨after, built, held⟩ := builds .initial ⟨rfl, rfl, rfl, rfl, rfl⟩
  have solid : (after.frame.pieces :: after.frame.before).reverse.map (fun pieces =>
      pieces.filter fun p => p.shape ≠ .nothing) = itemsOf (first :: others) := by
    rw [held.items_eq, List.nil_append]
    conv_rhs => rw [← List.map_id (itemsOf (first :: others))]
    refine List.map_congr_left fun pieces member => ?_
    obtain ⟨alternative, _, rfl⟩ := List.mem_map.1 member
    refine List.filter_eq_self.2 fun p member => ?_
    simpa using alternative.reads.solid p (List.mem_reverse.1 member)
  have closed : ∃ piece, after.frame.close? = Option.some piece ∧ piece.pattern = patternOf (first :: others) := by
    simp only [Frame.close?, held.group, solid]
    refine ⟨_, rfl, ?_⟩
    split
    · next empty => simp [patternOf, empty, choice, sequence]
    · next p single => simp [patternOf, single, choice, sequence]
    · rfl
  obtain ⟨piece, closed, same⟩ := closed
  have finished : after.finish? = Option.some ((patternOf (first :: others)).keepGroups []) := by
    simp [Builder.finish?, held.ground, held.numbered, closed, same, held.used]
  have ofTokens : Pattern.ofTokens? tokens = Option.some ((patternOf (first :: others)).keepGroups []) := by
    simp [Pattern.ofTokens?, built, finished]
  simp only [compile, tokenize_of_spells spelled, ofTokens]

/-- The search for a source that compiles. -/
theorem ofSource_eq {source : Text} {p : Pattern} (compiled : compile source = .ok p) :
    Search.ofSource source = .compiled source p compiled := by
  unfold Search.ofSource
  split
  · next pattern found =>
    rw [compiled] at found
    cases found
    rfl
  · next failed =>
    rw [compiled] at failed
    cases failed

/-- A search finds what the pattern of its source does. -/
theorem finds_ofSource {source : Text} {p : Pattern} (compiled : compile source = .ok p) (text : Text) :
    (Search.ofSource source).finds text = p.finds text := by
  rw [ofSource_eq compiled]
  rfl

/-- A source finds something when the items of one of its alternatives lead through part of the text. -/
theorem finds_alternatives {alternatives : List Alternative} (some : alternatives ≠ []) (text : Text) :
    (Search.ofSource (sourceOf alternatives)).finds text ↔
      ∃ a ∈ alternatives, ∃ i j, j ≤ text.length ∧ LeadsThrough text (a.pieces.map Piece.pattern) i j := by
  have plain : ((patternOf alternatives).keepGroups []).refersBack = false := by
    rw [refersBack_keepGroups]
    refine refersBack_choice fun p member => ?_
    obtain ⟨pieces, listed, rfl⟩ := List.mem_map.1 member
    obtain ⟨a, _, rfl⟩ := List.mem_map.1 listed
    exact refersBack_sequence fun q inside => a.reads.plain q (List.mem_reverse.1 inside)
  have search := finds_ofSource (compile_alternatives some) text
  have nonempty : (itemsOf alternatives).map sequence ≠ [] := by simpa [itemsOf] using some
  rw [search, finds_iff _ plain]
  simp only [leads_keepGroups, patternOf, leads_choice nonempty]
  constructor
  · rintro ⟨i, j, inside, p, member, way⟩
    obtain ⟨pieces, listed, rfl⟩ := List.mem_map.1 member
    obtain ⟨a, chosen, rfl⟩ := List.mem_map.1 listed
    exact ⟨a, chosen, i, j, inside, by simpa [leads_sequence] using way⟩
  · rintro ⟨a, chosen, i, j, inside, way⟩
    refine ⟨i, j, inside, _, List.mem_map_of_mem (List.mem_map_of_mem chosen), ?_⟩
    simpa [leads_sequence] using way

/-- A source that is anchored at the start finds something in the texts that begin with a part of the kind its other
    items lead over. -/
theorem finds_anchored {source : Text} {pieces : List Piece} (reads : Reads source ([.assertion .start] ++ pieces))
    {kind : Text → Prop} (covers : Covers (pieces.map Piece.pattern) kind) (text : Text) :
    (Search.ofSource source).finds text = true ↔ ∃ y z, text = y ++ z ∧ kind y := by
  let only : Alternative := ⟨source, [.assertion .start] ++ pieces, reads⟩
  have search : (Search.ofSource source).finds text = true ↔ _ := finds_alternatives (List.cons_ne_nil only []) text
  have items : only.pieces.map Piece.pattern = [Pattern.start] ++ pieces.map Piece.pattern := by
    simp [only, Piece.assertion]
  have start (i k : Nat) : LeadsThrough text [Pattern.start] i k ↔ i = 0 ∧ k = 0 := by
    simp only [LeadsThrough, Pattern.Leads, exists_eq_right]
    omega
  simp only [search, List.mem_singleton, exists_eq_left, items, leadsThrough_append, start]
  constructor
  · rintro ⟨_, j, _, _, ⟨rfl, rfl⟩, way⟩
    obtain ⟨y, z, cut, _, good⟩ := (covers [] text j).1 way
    exact ⟨y, z, cut, good⟩
  · rintro ⟨y, z, rfl, good⟩
    exact ⟨0, y.length, by simp, 0, ⟨rfl, rfl⟩, (covers [] (y ++ z) y.length).2 ⟨y, z, rfl, rfl, good⟩⟩

end ProxyRouting.Regex
